import NbIot.Memheap.Runs

/-! # Several memheaps as the system heap

With `RT_USING_MEMHEAP_AS_HEAP`, `rt_malloc` and `rt_realloc` work on all memheaps of the system:
`rt_malloc` tries the default heap `_heap` and then the others in the order of the object list, and
`rt_realloc` asks the heap a block belongs to and, if that one has no room, `rt_malloc`.

The heaps share one memory but have disjoint regions (`Layout.Apart`), so a call on one heap leaves
the others as they are (`Outcome.other`). The blocks of a heap are determined by the memory
(`Tiles.unique`), and `IsLive` is the set of live pointers of all heaps.
-/

namespace NbIot.Memheaps

open List

/-! ## The functions of `memheap.c` -/

/-- The walk of `rt_malloc` along the object list; the default heap is left out. -/
def tryHeaps (s : Heaps) (sysHeap size : Nat) : List Nat → Option (Heaps × Nat)
  | [] => some (s, 0)
  | heap :: objects =>
    if heap = sysHeap then tryHeaps s sysHeap size objects
    else do
      let (s, ptr) ← rtMemheapAlloc s heap size
      if ptr ≠ 0 then some (s, ptr) else tryHeaps s sysHeap size objects

/-- `rt_malloc`; `objects` are the memheaps in the object container. -/
def rtMalloc (s : Heaps) (sysHeap : Nat) (objects : List Nat) (size : Nat) :
    Option (Heaps × Nat) := do
  let (s, ptr) ← rtMemheapAlloc s sysHeap size
  if ptr = 0 then tryHeaps s sysHeap size objects else some (s, ptr)

/-- The part of `rt_realloc` behind a `rt_memheap_realloc` that has failed. -/
def reallocElsewhere (s : Heaps) (sysHeap : Nat) (objects : List Nat) (rmem newsize : Nat) :
    Option (Heaps × Nat) := do
  let (s, newPtr) ← rtMalloc s sysHeap objects newsize
  if newPtr ≠ 0 then
    let oldsize := memitemSize s.mem (sub32 rmem memheapSize)
    let m := s.mem.copy newPtr rmem (if oldsize < newsize then oldsize else newsize)
    some ({ s with mem := m }, newPtr)
  else some (s, newPtr)

def rtRealloc (s : Heaps) (sysHeap : Nat) (objects : List Nat) (rmem newsize : Nat) :
    Option (Heaps × Nat) :=
  if rmem = 0 then rtMalloc s sysHeap objects newsize
  else do
    let heap := s.mem.word (sub32 rmem memheapSize) Item.poolPtr
    let (s, newPtr) ← rtMemheapRealloc s heap rmem newsize
    if newPtr = 0 ∧ newsize ≠ 0 then reallocElsewhere s sysHeap objects rmem newsize
    else some (s, newPtr)

variable {xs ys : List Blk} {s s' : Heaps} {Ls : List Layout} {L sys : Layout}

section

variable {L : Layout} {F : Nat → Nat → Nat}

lemma Blk.eq_of_magic {x y : Blk} (ha : x.addr = y.addr) (hm : x.magic = y.magic) : x = y := by
  obtain ⟨a, u⟩ := x
  obtain ⟨b, v⟩ := y
  obtain rfl : a = b := ha
  cases u <;> cases v
  · rfl
  · exact absurd hm (show memheapMagic ≠ memheapMagic ||| memheapUsed by decide)
  · exact absurd hm (show memheapMagic ||| memheapUsed ≠ memheapMagic by decide)
  rfl

lemma Tiles.unique (hx : Tiles L F xs) (hy : Tiles L F ys) : xs = ys := by
  -- along both lists, starting at any common block
  have hmain : ∀ (r r' pre pre' : List Blk) (x : Blk), xs = pre ++ x :: r → ys = pre' ++ x :: r' →
      r = r' := by
    intro r
    induction r with
    | nil =>
      intro r' pre pre' x hpre hpre'
      rw [hpre] at hx
      rw [hpre'] at hy
      cases r' with
      | nil => rfl
      | cons y r' =>
        -- `x` is the tail, behind which there is nothing
        have hlast : x = ⟨L.tail, true⟩ := by
          have h := hx.last
          rw [getLast?_concat, Option.some.injEq] at h
          exact h
        have hlt := hy.toSpans.lt_next
        have hin := hy.toSpans.inside (x := y) (by simp)
        rw [hlast] at hlt
        simp only at hlt
        omega
    | cons y r ih =>
      intro r' pre pre' x hpre hpre'
      have hx' := hx
      have hy' := hy
      rw [hpre] at hx'
      rw [hpre'] at hy'
      have hne : x ≠ ⟨L.tail, true⟩ := by
        rintro rfl
        have hlt := hx'.toSpans.lt_next
        have hin := hx'.toSpans.inside (x := y) (by simp)
        simp only at hlt
        omega
      obtain ⟨z, r', rfl⟩ := hy'.toSpans.exists_next hne
      obtain rfl : y = z := by
        have haddr : y.addr = z.addr := hx'.links.1.symm.trans hy'.links.1
        refine Blk.eq_of_magic haddr ?_
        have h1 := (hx'.item y (by simp)).1
        have h2 := (hy'.item z (by simp)).1
        rw [haddr] at h1
        exact h1.symm.trans h2
      rw [ih r' (pre ++ [x]) (pre' ++ [x]) y (by simp [hpre]) (by simp [hpre'])]
  cases xs with
  | nil => exact absurd hx.first (by simp)
  | cons x xs =>
    cases ys with
    | nil => exact absurd hy.first (by simp)
    | cons y ys =>
      have hax : x.addr = L.start := by simpa using hx.first
      have hay : y.addr = L.start := by simpa using hy.first
      obtain rfl : x = y := by
        refine Blk.eq_of_magic (hax.trans hay.symm) ?_
        have h1 := (hx.item x (by simp)).1
        have h2 := (hy.item y (by simp)).1
        rw [hax, ← hay] at h1
        exact h1.symm.trans h2
      rw [hmain xs ys [] [] x rfl rfl]

end

/-! ## Several heaps -/

def Layout.Apart (L M : Layout) : Prop := L.heap ≠ M.heap ∧ ∀ x, L.Region x → ¬ M.Region x

lemma Layout.Apart.symm {L M : Layout} (h : L.Apart M) : M.Apart L :=
  ⟨h.1.symm, fun x hm hl => h.2 x hl hm⟩

structure System (Ls : List Layout) (s : Heaps) : Prop where
  apart : Ls.Pairwise Layout.Apart
  inv : ∀ L ∈ Ls, ∃ xs fs, Inv L s xs fs

/-- The block at `a` is allocated in the heap at `L`. -/
def LiveIn (L : Layout) (s : Heaps) (a : Nat) : Prop :=
  ∃ xs fs, Inv L s xs fs ∧ (⟨a, true⟩ : Blk) ∈ xs ∧ a ≠ L.tail

def IsLive (Ls : List Layout) (s : Heaps) (p : Nat) : Prop :=
  ∃ L ∈ Ls, ∃ a, p = a + 24 ∧ LiveIn L s a

section

variable {L M : Layout} {fs gs : List Nat} {a : Nat}

lemma liveIn_iff (hi : Inv L s xs fs) : LiveIn L s a ↔ a ∈ usedOf xs ∧ a ≠ L.tail := by
  constructor
  · rintro ⟨ys, gs, hi', ha, hne⟩
    rw [hi'.form.tiles.unique hi.form.tiles] at ha
    exact ⟨mem_usedOf.mpr ha, hne⟩
  rintro ⟨ha, hne⟩
  exact ⟨xs, fs, hi, mem_usedOf.mp ha, hne⟩

lemma LiveIn.region (h : LiveIn L s a) : L.Region a := by
  obtain ⟨xs, fs, hi, ha, -⟩ := h
  have hin : L.start ≤ a ∧ a + 24 ≤ L.start + L.pool := hi.form.tiles.toSpans.inside_add ha
  exact .inl ⟨hin.1, by omega⟩

lemma Inv.transfer (hi : Inv M s ys gs) (hmem : ∀ x, M.Region x → s'.mem x = s.mem x)
    (hheap : s'.heap M.heap = s.heap M.heap) : Inv M s' ys gs := by
  have hf := hi.form
  have hview : View 6 M.Region (itemsOf M ys) s'.mem s'.mem s.mem.word := by
    refine ⟨fun b hb k hk => ?_, fun _ _ => rfl⟩
    have hagree : Mem.Agree s'.mem s.mem b (b + 4 * 6) := fun x h1 h2 =>
      hmem x (hf.sites.region b hb x h1 h2)
    exact Mem.word_congr hagree hk
  refine ⟨Form.of_view hf.sites hf.header_mem hview hf.blocks_mem hf.free_mem hf.tiles hf.free, ?_⟩
  rw [hheap]
  exact hi.tidy

lemma Outcome.other (ho : Outcome L s s' xs fs) (hap : L.Apart M) (hi : Inv M s ys gs) :
    Inv M s' ys gs :=
  hi.transfer (fun x hx => ho.frame x fun hl => hap.2 x hl hx) (ho.others M.heap hap.1.symm)

lemma Outcome.liveIn_other (ho : Outcome L s s' xs fs) (hap : L.Apart M) (hi : Inv M s ys gs) :
    LiveIn M s' a ↔ LiveIn M s a := by
  rw [liveIn_iff hi, liveIn_iff (ho.other hap hi)]

end

/-! ## A call on one of them -/

namespace System

variable {Ls : List Layout} {L M : Layout} {s s' : Heaps} {xs : List Blk} {fs : List Nat}
  {p a : Nat}

lemma apart_of_ne (hs : System Ls s) (hL : L ∈ Ls) (hM : M ∈ Ls) (hne : L ≠ M) : L.Apart M := by
  have hsymm : Std.Symm Layout.Apart := ⟨fun _ _ h => h.symm⟩
  exact hs.apart.forall hL hM hne

lemma outcome (hs : System Ls s) (hL : L ∈ Ls) (ho : Outcome L s s' xs fs) : System Ls s' := by
  refine ⟨hs.apart, fun M hM => ?_⟩
  by_cases hne : L = M
  · exact ⟨xs, fs, hne ▸ ho.inv⟩
  obtain ⟨ys, gs, hi⟩ := hs.inv M hM
  exact ⟨ys, gs, ho.other (hs.apart_of_ne hL hM hne) hi⟩

lemma isLive_outcome (hs : System Ls s) (hL : L ∈ Ls) {ys : List Blk} {gs : List Nat}
    (hi : Inv L s ys gs) (ho : Outcome L s s' xs fs) (h : a ∈ usedOf xs ↔ a ∈ usedOf ys) :
    IsLive Ls s' (a + 24) ↔ IsLive Ls s (a + 24) := by
  have hkey : ∀ M ∈ Ls, LiveIn M s' a ↔ LiveIn M s a := by
    intro M hM
    by_cases hne : L = M
    · subst hne
      rw [liveIn_iff ho.inv, liveIn_iff hi, h]
    obtain ⟨zs, hs', hi'⟩ := hs.inv M hM
    exact ho.liveIn_other (hs.apart_of_ne hL hM hne) hi'
  constructor
  · rintro ⟨M, hM, b, hb, hlive⟩
    obtain rfl : a = b := by omega
    exact ⟨M, hM, a, rfl, (hkey M hM).mp hlive⟩
  rintro ⟨M, hM, b, hb, hlive⟩
  obtain rfl : a = b := by omega
  exact ⟨M, hM, a, rfl, (hkey M hM).mpr hlive⟩

lemma isLive_iff (hs : System Ls s) (hL : L ∈ Ls) (hi : Inv L s xs fs) (ha : L.Region a) :
    IsLive Ls s (a + 24) ↔ a ∈ usedOf xs ∧ a ≠ L.tail := by
  constructor
  · rintro ⟨M, hM, b, hb, hlive⟩
    obtain rfl : a = b := by omega
    by_cases hne : L = M
    · subst hne
      exact (liveIn_iff hi).mp hlive
    exact absurd hlive.region ((hs.apart_of_ne hL hM hne).2 a ha)
  intro h
  exact ⟨L, hL, a, rfl, (liveIn_iff hi).mpr h⟩

end System

/-! ## Room for a request -/

section

variable {s : Heaps}

/-- The block at `a` is free in the heap at `L`. -/
def FreeIn (L : Layout) (s : Heaps) (a : Nat) : Prop := ∃ xs fs, Inv L s xs fs ∧ a ∈ fs

/-- The heap at `L` has room for `n` bytes: `available_size` is larger than what they need, and a
free block is large enough. -/
def HasRoom (L : Layout) (s : Heaps) (n : Nat) : Prop :=
  roundSize n < (s.heap L.heap).availableSize ∧
    ∃ a, FreeIn L s a ∧ roundSize n ≤ memitemSize s.mem a

lemma hasRoom_iff {fs : List Nat} (hi : Inv L s xs fs) {n : Nat} :
    HasRoom L s n ↔ Room L s fs n := by
  have hfree : ∀ a, FreeIn L s a ↔ a ∈ fs := by
    refine fun a => ⟨?_, fun ha => ⟨xs, fs, hi, ha⟩⟩
    rintro ⟨ys, gs, hi', ha⟩
    rw [hi'.tidy.free.mem_iff, hi'.form.tiles.unique hi.form.tiles] at ha
    exact hi.tidy.free.mem_iff.mpr ha
  simp only [HasRoom, Room, hfree]

lemma hasRoom_or (hs : System Ls s) (hL : L ∈ Ls) (n : Nat) :
    (¬ HasRoom L s n ∧ rtMemheapAlloc s L.heap n = some (s, 0)) ∨
    HasRoom L s n ∧ ∃ s' a, rtMemheapAlloc s L.heap n = some (s', a + 24) := by
  obtain ⟨xs, fs, hi⟩ := hs.inv L hL
  rw [hasRoom_iff hi]
  rcases alloc_spec hi n with ⟨hnull, hno⟩ | ⟨s', a, -, -, hcall, -, -, hroom, -⟩
  · exact .inl ⟨hno, hnull⟩
  exact .inr ⟨hroom, s', a, hcall⟩

lemma tryHeaps_cases (hs : System Ls s) (n : Nat) : ∀ Ms : List Layout, (∀ M ∈ Ms, M ∈ Ls) →
    (tryHeaps s sys.heap n (Ms.map Layout.heap) = some (s, 0) ∧
      ∀ M ∈ Ms, M.heap ≠ sys.heap → ¬ HasRoom M s n) ∨
    ∃ M ∈ Ms, ∃ s' a, tryHeaps s sys.heap n (Ms.map Layout.heap) = some (s', a + 24) ∧
      rtMemheapAlloc s M.heap n = some (s', a + 24) := by
  intro Ms
  induction Ms with
  | nil => exact fun _ => .inl ⟨rfl, by simp⟩
  | cons M Ms ih =>
    intro hsub
    have hrest := ih fun N hN => hsub N (mem_cons_of_mem M hN)
    by_cases hM : M.heap = sys.heap
    · -- the default heap has been tried before
      have heq : tryHeaps s sys.heap n ((M :: Ms).map Layout.heap)
          = tryHeaps s sys.heap n (Ms.map Layout.heap) := by
        rw [map_cons, tryHeaps, if_pos hM]
      rw [heq]
      rcases hrest with ⟨hnull, href⟩ | ⟨N, hN, hserve⟩
      · exact .inl ⟨hnull, forall_mem_cons.mpr ⟨fun hne => absurd hM hne, href⟩⟩
      exact .inr ⟨N, mem_cons_of_mem M hN, hserve⟩
    rcases hasRoom_or hs (hsub M mem_cons_self) n with ⟨href, hcall⟩ | ⟨-, s', a, hcall⟩
    · have heq : tryHeaps s sys.heap n ((M :: Ms).map Layout.heap)
          = tryHeaps s sys.heap n (Ms.map Layout.heap) := by
        rw [map_cons, tryHeaps, if_neg hM, hcall]
        rfl
      rw [heq]
      rcases hrest with ⟨hnull, href'⟩ | ⟨N, hN, hserve⟩
      · exact .inl ⟨hnull, forall_mem_cons.mpr ⟨fun _ => href, href'⟩⟩
      exact .inr ⟨N, mem_cons_of_mem M hN, hserve⟩
    refine .inr ⟨M, mem_cons_self, s', a, ?_, hcall⟩
    rw [map_cons, tryHeaps, if_neg hM, hcall]
    rfl

/-- **`rt_malloc`** fails if no heap has room; otherwise the first one that has room serves the
request. -/
theorem rtMalloc_cases (hs : System Ls s) (hsys : sys ∈ Ls) (n : Nat) :
    (rtMalloc s sys.heap (Ls.map Layout.heap) n = some (s, 0) ∧ ∀ M ∈ Ls, ¬ HasRoom M s n) ∨
    ∃ M ∈ Ls, ∃ s' a, rtMalloc s sys.heap (Ls.map Layout.heap) n = some (s', a + 24) ∧
      rtMemheapAlloc s M.heap n = some (s', a + 24) := by
  rcases hasRoom_or hs hsys n with ⟨href, hcall⟩ | ⟨-, s', a, hcall⟩
  · have heq : rtMalloc s sys.heap (Ls.map Layout.heap) n
        = tryHeaps s sys.heap n (Ls.map Layout.heap) := by
      rw [rtMalloc, hcall]
      rfl
    rw [heq]
    rcases tryHeaps_cases hs n Ls fun _ h => h with ⟨hnull, href'⟩ | hserve
    · refine .inl ⟨hnull, fun M hM => ?_⟩
      by_cases hne : M = sys
      · exact hne ▸ href
      exact href' M hM (hs.apart_of_ne hM hsys hne).1
    exact .inr hserve
  refine .inr ⟨sys, hsys, s', a, ?_, hcall⟩
  rw [rtMalloc, hcall]
  rfl

end

/-! ## `rt_realloc` -/

section

variable {xs : List Blk} {fs : List Nat} {p q n : Nat} {objects : List Nat} {sysHeap : Nat}
  {a b : Nat}

/-- The heap at `L` can make its block at `a` one of `n` bytes: the block is large enough, or it can
grow into the block behind it, or there is room elsewhere in the heap. -/
def Serves (L : Layout) (s : Heaps) (a n : Nat) : Prop :=
  roundSize n ≤ memitemSize s.mem a ∨ Extends s.mem a n ∨ HasRoom L s n

/-- What `rt_realloc` owes to the live pointers when it returns `q` for `p`: nothing changes if it
fails, and if the block moves, `q` takes the place of `p`. -/
def Exchanges (Ls : List Layout) (s s' : Heaps) (p q : Nat) : Prop :=
  (q = 0 → ∀ r, IsLive Ls s' r ↔ IsLive Ls s r) ∧
  (q ≠ 0 → q ≠ p → ¬ IsLive Ls s q ∧ IsLive Ls s' q ∧ ¬ IsLive Ls s' p ∧
    ∀ r, r ≠ q → r ≠ p → (IsLive Ls s' r ↔ IsLive Ls s r))

lemma replaced {us us' : List Nat} (h : (a :: us').Perm (b :: us)) (hne : b ≠ a)
    (hus : us.Nodup) (hus' : us'.Nodup) :
    b ∉ us ∧ b ∈ us' ∧ a ∉ us' ∧ ∀ c, c ≠ b → c ≠ a → (c ∈ us' ↔ c ∈ us) := by
  have hmem : ∀ c, c ∈ a :: us' ↔ c ∈ b :: us := fun c => h.mem_iff
  have hb : b ∈ us' := by
    have := (hmem b).mpr mem_cons_self
    simpa [hne] using this
  have hcount : ∀ c, (a :: us').count c = (b :: us).count c := fun c => h.count_eq c
  have hle : ∀ c, us.count c ≤ 1 ∧ us'.count c ≤ 1 := fun c =>
    ⟨nodup_iff_count_le_one.mp hus c, nodup_iff_count_le_one.mp hus' c⟩
  refine ⟨fun hc => ?_, hb, fun hc => ?_, fun c h1 h2 => ?_⟩
  · have h1 := hcount b
    have h2 := hle b
    have h3 := count_pos_iff.mpr hc
    rw [count_cons_self, count_cons_of_ne hne.symm] at h1
    omega
  · have h1 := hcount a
    have h2 := hle a
    have h3 := count_pos_iff.mpr hc
    rw [count_cons_self, count_cons_of_ne hne] at h1
    omega
  have := hmem c
  simpa [h1, h2] using this

lemma exchanges_of_moved (hs : System Ls s) (hL : L ∈ Ls) {ys : List Blk} {gs : List Nat}
    (hi : Inv L s ys gs) (ha : LiveIn L s a) (ho : Outcome L s s' xs fs) (hne : b ≠ a)
    (hu : (a :: usedOf xs).Perm (b :: usedOf ys)) : Exchanges Ls s s' (a + 24) (b + 24) := by
  have hs' := hs.outcome hL ho
  obtain ⟨h1, h2, h3, h4⟩ := replaced hu hne hi.nodup_used ho.inv.nodup_used
  have hb : b ≠ L.tail := fun e => h1 (e ▸ mem_usedOf.mpr hi.form.tiles.toSpans.tail_mem)
  have hreg : L.Region b := LiveIn.region ((liveIn_iff ho.inv).mpr ⟨h2, hb⟩)
  refine ⟨fun h0 => absurd h0 (by omega), fun _ _ => ⟨?_, ?_, ?_, fun r hr1 hr2 => ?_⟩⟩
  · rw [hs.isLive_iff hL hi hreg]
    exact fun hc => h1 hc.1
  · rw [hs'.isLive_iff hL ho.inv hreg]
    exact ⟨h2, hb⟩
  · rw [hs'.isLive_iff hL ho.inv ha.region]
    exact fun hc => h3 hc.1
  -- any other pointer, in this heap or in another one
  by_cases hr : 24 ≤ r
  · obtain ⟨c, rfl⟩ : ∃ c, r = c + 24 := ⟨r - 24, by omega⟩
    exact hs.isLive_outcome hL hi ho (h4 c (by omega) (by omega))
  constructor
  · rintro ⟨M, -, c, hc, -⟩
    omega
  rintro ⟨M, -, c, hc, -⟩
  omega

lemma header_of_live (ha : LiveIn L s a) :
    sub32 (a + 24) memheapSize = a ∧ s.mem.word a Item.poolPtr = L.heap := by
  obtain ⟨xs, fs, hi, ha, hne⟩ := ha
  refine ⟨?_, (hi.form.tiles.item _ ha).2⟩
  obtain ⟨pre, y, post, rfl⟩ := hi.cut_used ha hne
  have hlt : a + 36 ≤ y.addr := hi.form.tiles.toSpans.lt_next
  have hy := hi.form.addr_le (x := y) (by simp)
  exact sub32_of_le (show 24 ≤ a + 24 by omega) (by omega)

/-- **The leak**: served by another heap, the request leaves the old block allocated. -/
theorem elsewhere_leaks (hs : System Ls s) {M : Layout} (hM : M ∈ Ls) (hp : IsLive Ls s p) {b : Nat}
    {s1 : Heaps} (hcall : rtMemheapAlloc s M.heap n = some (s1, b + 24)) (k : Nat)
    (hk : k ≤ roundSize n) :
    ¬ Exchanges Ls s { s1 with mem := s1.mem.copy (b + 24) p k } p (b + 24) := by
  obtain ⟨ys, gs, hi⟩ := hs.inv M hM
  rcases alloc_spec hi n with ⟨hnull, -⟩ |
    ⟨s2, c, xs', fs', hcall', ho, hu, -, pre, y, post, hxs, hfit⟩
  · rw [hnull] at hcall
    simp at hcall
  obtain ⟨rfl, hbc⟩ : s2 = s1 ∧ c + 24 = b + 24 := by
    rw [hcall] at hcall'
    simpa [eq_comm] using hcall'
  obtain rfl : c = b := by omega
  subst hxs
  -- the copy stays inside the new block
  have ho' := ho.trans (ho.inv.payload (s2.mem.copy (c + 24) p k) fun d hd => by
    refine (Mem.agree_copy s2.mem _ _ _ d (d + 1) ?_ d (by omega) (by omega)).symm
    simp only at hd
    omega)
  have hnew : c ∉ usedOf ys := (nodup_cons.mp (hu.nodup_iff.mp ho.inv.nodup_used)).1
  have hkept : IsLive Ls { s2 with mem := s2.mem.copy (c + 24) p k } p := by
    obtain ⟨L, hL, a, rfl, hlive⟩ := hp
    refine ⟨L, hL, a, rfl, ?_⟩
    by_cases hne : M = L
    · subst hne
      obtain ⟨hau, hat⟩ := (liveIn_iff hi).mp hlive
      exact (liveIn_iff ho'.inv).mpr ⟨hu.mem_iff.mpr (mem_cons_of_mem _ hau), hat⟩
    obtain ⟨zs, hz, hi'⟩ := hs.inv L hL
    exact (ho'.liveIn_other (hs.apart_of_ne hM hL hne) hi').mpr hlive
  -- the new pointer was not live, so it is not the old one
  have hcp : c + 24 ≠ p := by
    rintro rfl
    have hct : c ≠ M.tail := fun e =>
      hnew (e ▸ mem_usedOf.mpr hi.form.tiles.toSpans.tail_mem)
    have hreg : M.Region c := LiveIn.region
      ((liveIn_iff ho.inv).mpr ⟨hu.mem_iff.mpr mem_cons_self, hct⟩)
    exact hnew ((hs.isLive_iff hM hi hreg).mp hp).1
  exact fun hx => (hx.2 (by omega) hcp).2.2.1 hkept

lemma reallocElsewhere_served {s1 : Heaps} (hq : q ≠ 0)
    (h : rtMalloc s sysHeap objects n = some (s1, q)) :
    ∃ k ≤ n, reallocElsewhere s sysHeap objects p n
      = some ({ s1 with mem := s1.mem.copy q p k }, q) := by
  refine ⟨if memitemSize s1.mem (sub32 p memheapSize) < n then
    memitemSize s1.mem (sub32 p memheapSize) else n, by split <;> omega, ?_⟩
  rw [reallocElsewhere, h, Option.bind_eq_bind, Option.bind_some]
  simp only [if_pos hq]

lemma rtRealloc_eq (ha : LiveIn L s a) : rtRealloc s sysHeap objects (a + 24) n
      = (rtMemheapRealloc s L.heap (a + 24) n).bind fun r =>
        if r.2 = 0 ∧ n ≠ 0 then reallocElsewhere r.1 sysHeap objects (a + 24) n else some r := by
  obtain ⟨hhead, hpool⟩ := header_of_live ha
  rw [rtRealloc, hhead, hpool]
  rfl

lemma realloc_own (hs : System Ls s) (hL : L ∈ Ls) (ha : LiveIn L s a) (hn : n ≠ 0)
    (hown : Serves L s a n) (sysHeap : Nat) (objects : List Nat) :
    ∃ s' q, rtRealloc s sysHeap objects (a + 24) n = some (s', q) ∧
      Exchanges Ls s s' (a + 24) q := by
  rw [rtRealloc_eq ha]
  obtain ⟨xs, fs, hi, hmem, hne⟩ := id ha
  rcases realloc_spec hi hmem hne hn with ⟨-, hsmall, hext, hroom⟩ | ⟨s1, hstay, -⟩ |
    ⟨s1, b, xs', fs', hmoved, hba, -, ho, hu, -⟩
  · rcases hown with hfit | hfit | hfit
    · omega
    · exact absurd hfit hext
    exact absurd ((hasRoom_iff hi).mp hfit) hroom
  · rw [hstay]
    exact ⟨s1, a + 24, rfl, fun h => absurd h (by omega), fun _ h => absurd rfl h⟩
  rw [hmoved]
  exact ⟨s1, b + 24, rfl, exchanges_of_moved hs hL hi ha ho hba hu⟩

lemma realloc_refused (ha : LiveIn L s a) (hn : n ≠ 0) (hlt : n < wordSize)
    (hown : ¬ Serves L s a n) (sysHeap : Nat) (objects : List Nat) :
    rtRealloc s sysHeap objects (a + 24) n = reallocElsewhere s sysHeap objects (a + 24) n ∧
      n ≤ roundSize n := by
  rw [rtRealloc_eq ha]
  obtain ⟨xs, fs, hi, hmem, hne⟩ := ha
  rcases realloc_spec hi hmem hne hn with ⟨hnull, hsmall, -⟩ | ⟨s1, -, hfit, -⟩ |
    ⟨s1, b, -, -, -, -, hroom, -⟩
  · rw [hnull]
    exact ⟨if_pos ⟨rfl, hn⟩, le_roundSize hlt (hi.minialloc_lt hmem hne hsmall)⟩
  · exact absurd (hfit.imp_right .inl) hown
  exact absurd (.inr (.inr ((hasRoom_iff hi).mpr hroom))) hown

lemma realloc_leaks (hs : System Ls s) (hsys : sys ∈ Ls) (hL : L ∈ Ls) (ha : LiveIn L s a)
    (hn : n ≠ 0) (hlt : n < wordSize) (hown : ¬ Serves L s a n)
    (hroom : ¬ ∀ M ∈ Ls, ¬ HasRoom M s n) :
    ∃ s' q, rtRealloc s sys.heap (Ls.map Layout.heap) (a + 24) n = some (s', q) ∧
      ¬ Exchanges Ls s s' (a + 24) q := by
  obtain ⟨heq, hround⟩ := realloc_refused ha hn hlt hown sys.heap (Ls.map Layout.heap)
  rcases rtMalloc_cases hs hsys n with ⟨-, href⟩ | ⟨M, hM, s1, b, hmalloc, halloc⟩
  · exact absurd href hroom
  obtain ⟨k, hk, helse⟩ := reallocElsewhere_served (by omega) hmalloc
  exact ⟨_, b + 24, heq.trans helse,
    elsewhere_leaks hs hM ⟨L, hL, a, rfl, ha⟩ halloc k (by omega)⟩

/-- **`rt_realloc` on several heaps.** It returns, and it neither leaks nor duplicates a block
exactly when the heap of the block can serve the request itself, or no heap has room for it. -/
theorem realloc_exchanges_iff (Ls : List Layout) (sys L : Layout) (s : Heaps) (a n : Nat)
    (hs : System Ls s) (hsys : sys ∈ Ls) (hL : L ∈ Ls) (ha : LiveIn L s a) (hn : n ≠ 0)
    (hlt : n < wordSize) :
    ∃ s' q, rtRealloc s sys.heap (Ls.map Layout.heap) (a + 24) n = some (s', q) ∧
      (Exchanges Ls s s' (a + 24) q ↔ Serves L s a n ∨ ∀ M ∈ Ls, ¬ HasRoom M s n) := by
  by_cases hown : Serves L s a n
  · obtain ⟨s', q, hcall, hx⟩ := realloc_own hs hL ha hn hown sys.heap (Ls.map Layout.heap)
    exact ⟨s', q, hcall, fun _ => .inl hown, fun _ => hx⟩
  by_cases hroom : ∀ M ∈ Ls, ¬ HasRoom M s n
  · obtain ⟨heq, -⟩ := realloc_refused ha hn hlt hown sys.heap (Ls.map Layout.heap)
    rcases rtMalloc_cases hs hsys n with ⟨hall, -⟩ | ⟨M, hM, s₁, b, -, halloc⟩
    · refine ⟨s, 0, ?_, fun _ => .inr hroom, fun _ => ⟨fun _ _ => Iff.rfl, fun h => absurd rfl h⟩⟩
      rw [heq, reallocElsewhere, hall]
      rfl
    rcases hasRoom_or hs hM n with ⟨-, hnull⟩ | ⟨hM', -⟩
    · cases hnull.symm.trans halloc
    exact absurd hM' (hroom M hM)
  obtain ⟨s', q, hcall, hx⟩ := realloc_leaks hs hsys hL ha hn hlt hown hroom
  refine ⟨s', q, hcall, fun h => absurd h hx, ?_⟩
  rintro (h | h)
  · exact absurd h hown
  exact absurd h hroom

end

/-! ## Two heaps -/

lemma arena_small : Arena 256 4096 100 := by decide

lemma arena_large : Arena 512 8192 400 := by decide

def twoHeaps : Heaps :=
  rtMemheapInit (rtMemheapInit ⟨fun _ => 0xff, fun _ => ⟨0, 0, 0, 0, 0, 0⟩⟩ 256 4096 100)
    512 8192 400

def oneTaken : Heaps := ((rtMemheapAlloc twoHeaps 256 20).map Prod.fst).getD twoHeaps

lemma twoHeaps_apart : arena_small.layout.Apart arena_large.layout := by
  refine ⟨show (256 : Nat) ≠ 512 by decide, fun x h1 h2 => ?_⟩
  have h1' : (4096 ≤ x ∧ x < 4096 + 100) ∨ (256 + 44 ≤ x ∧ x < 256 + 44 + 24) := h1
  have h2' : (8192 ≤ x ∧ x < 8192 + 400) ∨ (512 + 44 ≤ x ∧ x < 512 + 44 + 24) := h2
  omega

lemma twoHeaps_system : System [arena_small.layout, arena_large.layout] twoHeaps := by
  refine ⟨by simpa using twoHeaps_apart, fun L hL => ?_⟩
  have h1 := init_outcome ⟨fun _ => 0xff, fun _ => ⟨0, 0, 0, 0, 0, 0⟩⟩ arena_small
  have h2 := init_outcome (rtMemheapInit ⟨fun _ => 0xff, fun _ => ⟨0, 0, 0, 0, 0, 0⟩⟩ 256 4096 100)
    arena_large
  rcases mem_cons.mp hL with rfl | hL
  · exact ⟨_, _, h2.other twoHeaps_apart.symm h1.inv⟩
  obtain rfl := mem_singleton.mp hL
  exact ⟨_, _, h2.inv⟩

lemma oneTaken_system : System [arena_small.layout, arena_large.layout] oneTaken ∧
    LiveIn arena_small.layout oneTaken 4096 := by
  have hL : arena_small.layout ∈ [arena_small.layout, arena_large.layout] := mem_cons_self
  obtain ⟨xs, fs, hi⟩ := twoHeaps_system.inv _ hL
  have hptr : (rtMemheapAlloc twoHeaps 256 20).map Prod.snd = some 4120 := by decide +kernel
  rcases alloc_spec hi 20 with ⟨hnull, -⟩ | ⟨s', a, xs', fs', hcall, ho, hu, -⟩
  · rw [show arena_small.layout.heap = 256 from rfl] at hnull
    rw [hnull] at hptr
    simp at hptr
  rw [show arena_small.layout.heap = 256 from rfl] at hcall
  have hs' : oneTaken = s' := by rw [oneTaken, hcall]; rfl
  rw [hcall, Option.map_some, Option.some.injEq] at hptr
  obtain rfl : a = 4096 := by omega
  rw [hs']
  refine ⟨twoHeaps_system.outcome hL ho, (liveIn_iff ho.inv).mpr ⟨?_, ?_⟩⟩
  · exact hu.mem_iff.mpr mem_cons_self
  decide

lemma oneTaken_full (n : Nat) : ¬ HasRoom arena_small.layout oneTaken n := by
  rintro ⟨hav, -⟩
  have hzero : (oneTaken.heap arena_small.layout.heap).availableSize = 0 := by decide +kernel
  omega

theorem realloc_exchanges_iff_refused :
    ∃ s', rtRealloc oneTaken 256 [256, 512] 4120 1000 = some (s', 0) ∧
      ∀ r, IsLive [arena_small.layout, arena_large.layout] s' r ↔
        IsLive [arena_small.layout, arena_large.layout] oneTaken r := by
  obtain ⟨hs, ha⟩ := oneTaken_system
  obtain ⟨s', q, hcall, hiff⟩ := realloc_exchanges_iff _ arena_small.layout arena_small.layout
    oneTaken 4096 1000 hs mem_cons_self mem_cons_self ha (by decide) (by decide)
  have hptr : (rtRealloc oneTaken 256 [256, 512] 4120 1000).map Prod.snd = some 0 := by
    decide +kernel
  obtain rfl : q = 0 := by
    have h := (congrArg (Option.map Prod.snd) hcall).symm.trans hptr
    simpa using h
  have hlarge : ¬ HasRoom arena_large.layout oneTaken 1000 := by
    rintro ⟨hav, -⟩
    have hle : (oneTaken.heap arena_large.layout.heap).availableSize = 352 := by decide +kernel
    have hround : roundSize 1000 = 1000 := by decide +kernel
    omega
  have hroom : ∀ M ∈ [arena_small.layout, arena_large.layout], ¬ HasRoom M oneTaken 1000 :=
    forall_mem_cons.mpr ⟨oneTaken_full 1000, forall_mem_singleton.mpr hlarge⟩
  exact ⟨s', hcall, (hiff.mpr (.inr hroom)).1 rfl⟩

/-- Only the other heap has room for 60 bytes: the old block stays allocated. -/
theorem realloc_leaks_old_block : System [arena_small.layout, arena_large.layout] oneTaken ∧
    LiveIn arena_small.layout oneTaken 4096 ∧
    ∃ s', rtRealloc oneTaken 256 [256, 512] 4120 60 = some (s', 8216) ∧
      ¬ Exchanges [arena_small.layout, arena_large.layout] oneTaken s' 4120 8216 := by
  obtain ⟨hs, ha⟩ := oneTaken_system
  have hown : ¬ Serves arena_small.layout oneTaken 4096 60 := by
    have hfit :
        ¬ (roundSize 60 ≤ memitemSize oneTaken.mem 4096 ∨ Extends oneTaken.mem 4096 60) := by
      decide +kernel
    exact fun h => (or_assoc.mpr h).elim hfit (oneTaken_full 60)
  have hother : HasRoom arena_large.layout oneTaken 60 := by
    have hcall : (rtMemheapAlloc oneTaken arena_large.layout.heap 60).map Prod.snd ≠ some 0 := by
      decide +kernel
    rcases hasRoom_or hs (L := arena_large.layout) (by simp) 60 with ⟨-, hnull⟩ | ⟨hroom, -⟩
    · exact absurd (by rw [hnull]; rfl) hcall
    exact hroom
  have hptr : (rtRealloc oneTaken 256 [256, 512] 4120 60).map Prod.snd = some 8216 := by
    decide +kernel
  have hsmall : arena_small.layout ∈ [arena_small.layout, arena_large.layout] := mem_cons_self
  obtain ⟨s', q, hcall, hx⟩ := realloc_leaks hs hsmall hsmall ha (by decide) (by decide) hown
    fun h => h _ (by simp) hother
  have hq : q = 8216 := by
    have h := (congrArg (Option.map Prod.snd) hcall).symm.trans hptr
    simpa using h
  rw [hq] at hcall hx
  exact ⟨hs, ha, s', hcall, hx⟩

end NbIot.Memheaps
