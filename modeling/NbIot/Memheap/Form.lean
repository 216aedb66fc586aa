import NbIot.Memheap.Heap

/-! # The form of a memheap, and the edits of its lists

The abstract view of a memheap is the list `xs` of its blocks in address order, each used or free,
and the list `fs` of the items on the free ring. `Form L S m₀ m xs fs` says that the memory `m`
holds this heap at the place `L`. It says nothing about which blocks are on the free ring, so it
also holds in the middle of a call. `S` is the list of the items that must not be overwritten
meanwhile, and `m₀` the memory at the start of the call, from which `m` differs in the region of the
heap only.
-/

namespace NbIot.Memheaps

open List

/-! ## The memory of a heap -/

/-- The addresses of a heap: its `struct rt_memheap`, its arena and its free list header. -/
structure Layout where
  heap : Nat
  start : Nat
  pool : Nat
  freeList : Nat
  heap_lt : heap < wordSize
  -- two items and `RT_MEMHEAP_MINIALLOC` bytes
  room : 60 ≤ pool
  fits : start + pool ≤ wordSize
  pool_lt : pool < wordSize
  header_fits : freeList + 24 ≤ wordSize
  apart : freeList + 24 ≤ start ∨ start + pool ≤ freeList

namespace Layout

def Region (L : Layout) (x : Nat) : Prop :=
  (L.start ≤ x ∧ x < L.start + L.pool) ∨ (L.freeList ≤ x ∧ x < L.freeList + 24)

def tail (L : Layout) : Nat := L.start + L.pool - 24

end Layout

structure Blk where
  addr : Nat
  used : Bool
  deriving DecidableEq, Repr

def Blk.magic (x : Blk) : Nat := if x.used then memheapMagic ||| memheapUsed else memheapMagic

lemma Blk.magic_lt (x : Blk) : x.magic < wordSize := by
  unfold Blk.magic
  split <;> decide

/-! ## Blocks that span it -/

structure Spans (L : Layout) (xs : List Blk) : Prop where
  first : xs.head?.map Blk.addr = some L.start
  last : xs.getLast? = some ⟨L.tail, true⟩
  -- a header and at least `RT_MEMHEAP_MINIALLOC` bytes
  spaced : xs.IsChain fun x y => x.addr + 36 ≤ y.addr

def itemsOf (L : Layout) (xs : List Blk) : List Nat := L.freeList :: xs.map Blk.addr

lemma mem_itemsOf {L : Layout} {xs : List Blk} {x : Blk} (hx : x ∈ xs) : x.addr ∈ itemsOf L xs :=
  mem_cons_of_mem _ (List.mem_map_of_mem hx)

namespace Spans

variable {L : Layout} {xs pre post : List Blk} {x y t : Blk}

lemma pairwise (hs : Spans L xs) : xs.Pairwise fun x y => x.addr + 36 ≤ y.addr := by
  have htrans : IsTrans Blk fun x y => x.addr + 36 ≤ y.addr := ⟨fun x y z h1 h2 => by omega⟩
  exact isChain_iff_pairwise.mp hs.spaced

lemma lt_of_append (hs : Spans L (pre ++ post)) (hx : x ∈ pre) (hy : y ∈ post) :
    x.addr + 36 ≤ y.addr :=
  (pairwise_append.mp hs.pairwise).2.2 x hx y hy

lemma lt_next (hs : Spans L (pre ++ x :: y :: post)) : x.addr + 36 ≤ y.addr :=
  (isChain_append_cons_cons.mp hs.spaced).2.1

lemma eq_tail (hs : Spans L xs) : ∃ zs, xs = zs ++ [⟨L.tail, true⟩] :=
  ⟨_, (dropLast_append_getLast? _ hs.last).symm⟩

lemma tail_mem (hs : Spans L xs) : (⟨L.tail, true⟩ : Blk) ∈ xs := mem_of_getLast? hs.last

lemma exists_next (hs : Spans L (pre ++ x :: post)) (hx : x ≠ ⟨L.tail, true⟩) :
    ∃ y post', post = y :: post' := by
  cases post with
  | cons y post' => exact ⟨y, post', rfl⟩
  | nil =>
    have hl := hs.last
    rw [getLast?_concat, Option.some.injEq] at hl
    exact absurd hl hx

lemma inside (hs : Spans L xs) (hx : x ∈ xs) : L.start ≤ x.addr ∧ x.addr ≤ L.tail := by
  constructor
  · cases xs with
    | nil => simp at hx
    | cons x0 xs =>
      have hfirst : x0.addr = L.start := by simpa using hs.first
      rcases mem_cons.mp hx with rfl | hx
      · omega
      have := (pairwise_cons.mp hs.pairwise).1 x hx
      omega
  obtain ⟨zs, rfl⟩ := hs.eq_tail
  rcases mem_append.mp hx with hx | hx
  · have := hs.lt_of_append hx (mem_singleton_self _)
    simp only at this
    omega
  rw [mem_singleton.mp hx]

lemma inside_add (hs : Spans L xs) (hx : x ∈ xs) :
    L.start ≤ x.addr ∧ x.addr + 24 ≤ L.start + L.pool := by
  have h := hs.inside hx
  have hroom := L.room
  unfold Layout.tail at h
  omega

lemma apart (hs : Spans L xs) (hx : x ∈ xs) (hy : y ∈ xs) (hne : x ≠ y) :
    x.addr + 24 ≤ y.addr ∨ y.addr + 24 ≤ x.addr := by
  have hsymm : Std.Symm fun x y : Blk => x.addr + 24 ≤ y.addr ∨ y.addr + 24 ≤ x.addr :=
    ⟨fun _ _ h => h.symm⟩
  have hpair : xs.Pairwise fun x y => x.addr + 24 ≤ y.addr ∨ y.addr + 24 ≤ x.addr :=
    hs.pairwise.imp fun h => .inl (by omega)
  exact hpair.forall hx hy hne

lemma eq_of_addr (hs : Spans L xs) (hx : x ∈ xs) (hy : y ∈ xs) (h : x.addr = y.addr) : x = y := by
  by_contra hne
  have := hs.apart hx hy hne
  omega

lemma sites (hs : Spans L xs) : Sites 6 L.Region (itemsOf L xs) := by
  have hfits := L.fits
  have hapart := L.apart
  have hheader := L.header_fits
  refine ⟨?_, ?_, ?_⟩
  · intro a ha b hb hne
    rcases mem_cons.mp ha with rfl | ha <;> rcases mem_cons.mp hb with rfl | hb
    · exact absurd rfl hne
    · obtain ⟨y, hy, rfl⟩ := List.mem_map.mp hb
      have := hs.inside_add hy
      omega
    · obtain ⟨x, hx, rfl⟩ := List.mem_map.mp ha
      have := hs.inside_add hx
      omega
    obtain ⟨x, hx, rfl⟩ := List.mem_map.mp ha
    obtain ⟨y, hy, rfl⟩ := List.mem_map.mp hb
    exact hs.apart hx hy fun e => hne (congrArg Blk.addr e)
  · intro a ha
    rcases mem_cons.mp ha with rfl | ha
    · omega
    obtain ⟨x, hx, rfl⟩ := List.mem_map.mp ha
    have := hs.inside_add hx
    omega
  intro a ha x h1 h2
  rcases mem_cons.mp ha with rfl | ha
  · exact .inr ⟨h1, by omega⟩
  obtain ⟨y, hy, rfl⟩ := List.mem_map.mp ha
  have := hs.inside_add hy
  exact .inl ⟨by omega, by omega⟩

lemma insert (hs : Spans L (pre ++ x :: y :: post)) (h1 : x.addr + 36 ≤ t.addr)
    (h2 : t.addr + 36 ≤ y.addr) : Spans L (pre ++ x :: t :: y :: post) := by
  obtain ⟨hfirst, hlast, hspaced⟩ := hs
  obtain ⟨hleft, -, hright⟩ := isChain_append_cons_cons.mp hspaced
  refine ⟨?_, ?_, isChain_append_cons_cons.mpr
    ⟨hleft, h1, isChain_cons_cons.mpr ⟨h2, hright⟩⟩⟩
  · simpa using hfirst
  simpa using hlast

lemma rest_ne (hs : Spans L (pre ++ x :: post)) {z : Blk} (hz : z ∈ pre ++ post) :
    z.addr ≠ x.addr := by
  have hs' : Spans L ((pre ++ [x]) ++ post) := by simpa using hs
  rcases mem_append.mp hz with hz | hz
  · have := hs.lt_of_append hz (y := x) (by simp)
    omega
  have := hs'.lt_of_append (x := x) (by simp) hz
  omega

lemma insert_ne (hs : Spans L (pre ++ x :: y :: post)) (h1 : x.addr + 36 ≤ t.addr)
    (h2 : t.addr + 36 ≤ y.addr) {z : Blk} (hz : z ∈ pre ++ x :: y :: post) : z.addr ≠ t.addr := by
  have hs' : Spans L ((pre ++ [x]) ++ t :: y :: post) := by simpa using hs.insert h1 h2
  exact hs'.rest_ne (by simpa using hz)

lemma ne_header (hs : Spans L xs) (hx : x ∈ xs) : x.addr ≠ L.freeList := by
  have hin := hs.inside_add hx
  have hapart := L.apart
  omega

lemma remove (hs : Spans L (pre ++ x :: t :: y :: post)) : Spans L (pre ++ x :: y :: post) := by
  obtain ⟨hfirst, hlast, hspaced⟩ := hs
  obtain ⟨hleft, h1, hright⟩ := isChain_append_cons_cons.mp hspaced
  obtain ⟨h2, hright⟩ := isChain_cons_cons.mp hright
  refine ⟨?_, ?_, isChain_append_cons_cons.mpr ⟨hleft, by omega, hright⟩⟩
  · simpa using hfirst
  simpa using hlast

lemma mark {a : Nat} {u : Bool} (hs : Spans L (pre ++ ⟨a, u⟩ :: y :: post)) (v : Bool) :
    Spans L (pre ++ ⟨a, v⟩ :: y :: post) := by
  obtain ⟨hfirst, hlast, hspaced⟩ := hs
  obtain ⟨hleft, h1, hright⟩ := isChain_append_cons_cons.mp hspaced
  refine ⟨?_, ?_, isChain_append_cons_cons.mpr ⟨?_, h1, hright⟩⟩
  · cases pre with
    | nil => exact hfirst
    | cons z pre => exact hfirst
  · simpa using hlast
  rw [isChain_append] at hleft ⊢
  refine ⟨hleft.1, isChain_singleton _, fun z hz b hb => ?_⟩
  obtain rfl : (⟨a, v⟩ : Blk) = b := by simpa using hb
  exact hleft.2.2 z hz ⟨a, u⟩ rfl

end Spans

/-! ## Blocks linked in a circle -/

structure Tiles (L : Layout) (F : Nat → Nat → Nat) (xs : List Blk) : Prop extends Spans L xs where
  circle : Circle (F · Item.next) (F · Item.prev) (xs.map Blk.addr)
  item : ∀ x ∈ xs, F x.addr Item.magic = x.magic ∧ F x.addr Item.poolPtr = L.heap

namespace Tiles

variable {L : Layout} {F F' : Nat → Nat → Nat} {xs pre post : List Blk} {x y z : Blk}

lemma congr (ht : Tiles L F xs) (h : ∀ x ∈ xs, ∀ k < 4, F' x.addr k = F x.addr k) :
    Tiles L F' xs := by
  have hword : ∀ k < 4, ∀ a ∈ xs.map Blk.addr, F' a k = F a k := by
    intro k hk a ha
    obtain ⟨x, hx, rfl⟩ := List.mem_map.mp ha
    exact h x hx k hk
  refine ⟨ht.toSpans, ht.circle.congr (hword _ (by decide)) (hword _ (by decide)), fun x hx => ?_⟩
  rw [h x hx _ (by decide), h x hx _ (by decide)]
  exact ht.item x hx

lemma links (ht : Tiles L F (pre ++ x :: y :: post)) :
    F x.addr Item.next = y.addr ∧ F y.addr Item.prev = x.addr := by
  have hc := ht.circle
  simp only [map_append] at hc
  exact hc.neighbours

lemma prev_first (ht : Tiles L F (x :: y :: post)) : F x.addr Item.prev = L.tail := by
  obtain ⟨zs, hz⟩ : ∃ zs, y :: post = zs ++ [⟨L.tail, true⟩] := by
    have hl := ht.last
    rw [getLast?_cons_cons] at hl
    exact ⟨_, (dropLast_append_getLast? _ hl).symm⟩
  have hc := ht.circle
  rw [hz] at hc
  simp only [map_append, map_cons] at hc
  exact hc.closed.2

end Tiles

lemma Tiles.wedge {L : Layout} {F : Nat → Nat → Nat} {pre post : List Blk} {x y : Blk} {n : Nat}
    (ht : Tiles L F (pre ++ x :: y :: post)) (h1 : x.addr + 36 ≤ n) (h2 : n + 36 ≤ y.addr) :
    Tiles L (wedge (put (put F n Item.magic memheapMagic) n Item.poolPtr L.heap) x.addr n
      (F x.addr Item.next) Item.next Item.prev) (pre ++ x :: ⟨n, false⟩ :: y :: post) := by
  have hspan : Spans L (pre ++ x :: ⟨n, false⟩ :: y :: post) := ht.toSpans.insert h1 h2
  have hne : ∀ z ∈ pre ++ x :: y :: post, z.addr ≠ n := fun z hz =>
    ht.toSpans.insert_ne (t := ⟨n, false⟩) h1 h2 hz
  rw [ht.links.1]
  refine ⟨hspan, ?_, fun z hz => ?_⟩
  · -- the first two writes are to other words
    have hc : Circle (put (put F n Item.magic memheapMagic) n Item.poolPtr L.heap · Item.next)
        (put (put F n Item.magic memheapMagic) n Item.poolPtr L.heap · Item.prev)
        ((pre ++ x :: y :: post).map Blk.addr) :=
      ht.circle.congr
        (fun b _ => (put_of_ne_word _ _ (by decide)).trans (put_of_ne_word _ _ (by decide)))
        fun b _ => (put_of_ne_word _ _ (by decide)).trans (put_of_ne_word _ _ (by decide))
    have hnot : n ∉ (pre ++ x :: y :: post).map Blk.addr := by
      intro hmem
      obtain ⟨z, hz, e⟩ := List.mem_map.mp hmem
      exact hne z hz e
    simp only [map_append] at hc hnot ⊢
    exact hc.wedge (by decide) hnot
  rw [wedge_other _ (by decide) (by decide), wedge_other _ (by decide) (by decide)]
  by_cases hzn : z = ⟨n, false⟩
  · subst hzn
    exact ⟨(put_of_ne_word _ _ (by decide)).trans (put_self _ _), put_self _ _⟩
  have hmem : z ∈ pre ++ x :: y :: post := by
    simp only [mem_append, mem_cons, hzn, false_or] at hz ⊢
    exact hz
  rw [put_of_ne _ _ (hne z hmem), put_of_ne _ _ (hne z hmem), put_of_ne _ _ (hne z hmem),
    put_of_ne _ _ (hne z hmem)]
  exact ht.item z hmem

lemma view_newBlock {R : Nat → Prop} {S : List Nat} {m : Mem} {heap p n : Nat}
    (hs : Sites 6 R S) (hp : p ∈ S) (hn : n ∈ S) (hpn : p ≠ n) (hq : m.word p Item.next ∈ S)
    (hheap : heap < wordSize) :
    View 6 R S m (newBlock m heap p n)
      (wedge (put (put m.word n Item.magic memheapMagic) n Item.poolPtr heap) p n
        (m.word p Item.next) Item.next Item.prev) := by
  let m2 := (m.setWord n Item.magic memheapMagic).setWord n Item.poolPtr heap
  have h2 : View 6 R S m m2 _ := ((View.refl 6 R S m).set hs hn (by decide)
    (Blk.magic_lt ⟨n, false⟩)).set hs hn (by decide) hheap
  have h3 := h2.set hs hn (i := Item.prev) (by decide) (hs.small _ hp)
  have h4 := h3.set hs hn (i := Item.next) (by decide) (hs.small _ hq)
  have h5 := h4.set hs hq (i := Item.prev) (by decide) (hs.small _ hn)
  have h6 := h5.set hs hp (i := Item.next) (by decide) (hs.small _ hn)
  -- none of the writes to `n` touches the link that is read
  have hread3 := h3.word_eq p hp Item.next (by decide)
  rw [put_of_ne _ _ hpn, put_of_ne _ _ hpn, put_of_ne _ _ hpn] at hread3
  have hread4 := h4.word_eq p hp Item.next (by decide)
  rw [put_of_ne _ _ hpn, put_of_ne _ _ hpn, put_of_ne _ _ hpn, put_of_ne _ _ hpn] at hread4
  have hcomm := put_comm (put (put m.word n Item.magic memheapMagic) n Item.poolPtr heap) (a := n)
    (b := n) (m.word p Item.next) (w := p) (i := Item.next) (j := Item.prev) (by decide)
  rw [wedge, hcomm]
  simp only [newBlock]
  rw [hread3, hread4]
  exact h6

/-! ## Free blocks linked in a ring -/

/-- The memory `m` holds a heap with the blocks `xs` and the free ring `fs`. -/
structure Form (L : Layout) (S : List Nat) (m₀ m : Mem) (xs : List Blk) (fs : List Nat) :
    Prop where
  sites : Sites 6 L.Region S
  header_mem : L.freeList ∈ S
  blocks_mem : ∀ x ∈ xs, x.addr ∈ S
  free_mem : ∀ a ∈ fs, a ∈ S
  tiles : Tiles L m.word xs
  free : Ring (m.word · Item.nextFree) (m.word · Item.prevFree) L.freeList fs
  frame : ∀ x, ¬ L.Region x → m x = m₀ x

namespace Form

variable {L : Layout} {S S' : List Nat} {m₀ m m' : Mem} {F : Nat → Nat → Nat}
  {xs xs' pre post : List Blk} {fs fs' f₁ f₂ : List Nat} {x y t : Blk} {a n : Nat}

lemma resite (hf : Form L S m₀ m xs fs) (hs : Sites 6 L.Region S') (hh : L.freeList ∈ S')
    (hb : ∀ x ∈ xs, x.addr ∈ S') (hfm : ∀ a ∈ fs, a ∈ S') : Form L S' m₀ m xs fs :=
  ⟨hs, hh, hb, hfm, hf.tiles, hf.free, hf.frame⟩

lemma shift (hf : Form L S m₀ m (pre ++ x :: post) fs) :
    Form L S m₀ m ((pre ++ [x]) ++ post) fs := by
  rwa [append_assoc]

lemma of_view (hs : Sites 6 L.Region S) (hh : L.freeList ∈ S) (hv : View 6 L.Region S m₀ m F)
    (hb : ∀ x ∈ xs, x.addr ∈ S) (hfm : ∀ a ∈ fs, a ∈ S) (ht : Tiles L F xs)
    (hr : Ring (F · Item.nextFree) (F · Item.prevFree) L.freeList fs) : Form L S m₀ m xs fs := by
  have hring : ∀ b ∈ L.freeList :: fs, b ∈ S := forall_mem_cons.mpr ⟨hh, hfm⟩
  refine ⟨hs, hh, hb, hfm, ?_, ?_, hv.frame⟩
  · exact ht.congr fun x hx k hk => hv.word_eq _ (hb x hx) k (by omega)
  exact hr.congr (fun b hb => hv.word_eq b (hring b hb) _ (by decide))
    fun b hb => hv.word_eq b (hring b hb) _ (by decide)

lemma edit (hf : Form L S m₀ m xs fs) (hv : View 6 L.Region S m m' F) (hb : ∀ x ∈ xs', x.addr ∈ S)
    (hfm : ∀ a ∈ fs', a ∈ S) (ht : Tiles L F xs')
    (hr : Ring (F · Item.nextFree) (F · Item.prevFree) L.freeList fs') : Form L S m₀ m' xs' fs' :=
  of_view hf.sites hf.header_mem
    ⟨hv.word_eq, fun b hb => (hv.frame b hb).trans (hf.frame b hb)⟩ hb hfm ht hr

lemma neighbour_mem (hf : Form L S m₀ m xs (f₁ ++ a :: f₂)) :
    a ∈ S ∧ m.word a Item.prevFree ∈ S ∧ m.word a Item.nextFree ∈ S := by
  have ha : a ∈ f₁ ++ a :: f₂ := by simp
  have hin : ∀ b ∈ L.freeList :: (f₁ ++ a :: f₂), b ∈ S := by
    intro b hb
    rcases mem_cons.mp hb with rfl | hb
    · exact hf.header_mem
    exact hf.free_mem b hb
  obtain ⟨hp, hn⟩ := hf.free.neighbours_mem ha
  exact ⟨hf.free_mem a ha, hin _ hp, hin _ hn⟩

lemma removeFree (hf : Form L S m₀ m xs (f₁ ++ a :: f₂)) :
    Form L S m₀ (removeFree m a) xs (f₁ ++ f₂) := by
  obtain ⟨ha, hp, hn⟩ := hf.neighbour_mem
  have hv := (View.refl 6 L.Region S m).unlink hf.sites (by decide) (by decide) (by decide) ha hp hn
  refine hf.edit hv hf.blocks_mem (fun b hb => hf.free_mem b ?_) ?_ (hf.free.bridge (by decide))
  · simp only [mem_append] at hb ⊢
    tauto
  refine hf.tiles.congr fun x _ k hk => bridge_other _ ?_ ?_
  · show k ≠ 4
    omega
  show k ≠ 5
  omega

lemma clear (hf : Form L S m₀ m xs fs) (ha : a ∈ S) (hnot : a ∉ L.freeList :: fs) {k : Nat}
    (hk : 4 ≤ k) (hk6 : k < 6) : Form L S m₀ (m.setWord a k 0) xs fs := by
  have hv := (View.refl 6 L.Region S m).set hf.sites ha hk6 (Nat.zero_lt_of_lt (m.word_lt a k))
  refine hf.edit hv hf.blocks_mem hf.free_mem ?_ ?_
  · exact hf.tiles.congr fun x _ j hj => put_of_ne_word _ _ (by omega)
  exact hf.free.congr (fun b hb => put_of_ne _ _ (ne_of_mem_of_not_mem hb hnot))
    fun b hb => put_of_ne _ _ (ne_of_mem_of_not_mem hb hnot)

lemma takeFree (hf : Form L S m₀ m xs (f₁ ++ a :: f₂)) :
    Form L S m₀ (takeFree m a) xs (f₁ ++ f₂) := by
  have ha := hf.neighbour_mem.1
  have hnot := hf.free.notMem_rest
  exact (hf.removeFree.clear ha hnot (by decide) (by decide)).clear ha hnot (by decide) (by decide)

lemma insertFree (hf : Form L S m₀ m xs fs) (ha : a ∈ S) (hnot : a ∉ L.freeList :: fs) :
    Form L S m₀ (insertFree m L.freeList a) xs (a :: fs) := by
  have hnext : m.word L.freeList Item.nextFree ∈ S := by
    have h : m.word L.freeList Item.nextFree = behind L.freeList fs := hf.free.next_head
    rw [h]
    rcases mem_cons.mp (behind_mem L.freeList fs) with e | hmem
    · rw [e]
      exact hf.header_mem
    exact hf.free_mem _ hmem
  have hne : L.freeList ≠ a := fun e => hnot (e ▸ mem_cons_self)
  have hv := (View.refl 6 L.Region S m).linkAfter hf.sites (j := Item.prevFree) (by decide)
    (by decide) hf.header_mem ha hne hnext
  refine hf.edit hv hf.blocks_mem ?_ ?_ (hf.free.wedge (by decide) hnot)
  · intro b hb
    rcases mem_cons.mp hb with rfl | hb
    · exact ha
    exact hf.free_mem b hb
  refine hf.tiles.congr fun x _ k hk => wedge_other _ ?_ ?_
  · show k ≠ 4
    omega
  show k ≠ 5
  omega

lemma free_other (hf : Form L S m₀ m xs fs) (h : ∀ b k, 4 ≤ k → F b k = m.word b k) :
    Ring (F · Item.nextFree) (F · Item.prevFree) L.freeList fs :=
  hf.free.congr (fun b _ => h b _ (by decide)) fun b _ => h b _ (by decide)

lemma mark {u : Bool} (hf : Form L S m₀ m (pre ++ ⟨a, u⟩ :: y :: post) fs) (v : Bool) :
    Form L S m₀ (m.setWord a Item.magic (Blk.magic ⟨a, v⟩)) (pre ++ ⟨a, v⟩ :: y :: post) fs := by
  have ha : a ∈ S := hf.blocks_mem ⟨a, u⟩ (by simp)
  have hv := (View.refl 6 L.Region S m).set hf.sites ha (by decide) (Blk.magic_lt ⟨a, v⟩)
    (i := Item.magic)
  have hb : ∀ x ∈ pre ++ ⟨a, v⟩ :: y :: post, x.addr ∈ S := by
    intro x hx
    rcases mem_append.mp hx with hx | hx
    · exact hf.blocks_mem x (by simp [hx])
    rcases mem_cons.mp hx with rfl | hx
    · exact ha
    exact hf.blocks_mem x (mem_append_right _ (mem_cons_of_mem _ hx))
  refine hf.edit hv hb hf.free_mem ⟨hf.tiles.toSpans.mark v, ?_, ?_⟩ ?_
  · have hc := hf.tiles.circle
    simp only [map_append] at hc ⊢
    exact hc.congr (fun b _ => put_of_ne_word _ _ (by decide))
      fun b _ => put_of_ne_word _ _ (by decide)
  · intro x hx
    have hpool : put m.word a Item.magic (Blk.magic ⟨a, v⟩) x.addr Item.poolPtr
        = m.word x.addr Item.poolPtr := put_of_ne_word _ _ (by decide)
    rw [hpool]
    by_cases hxa : x = ⟨a, v⟩
    · subst hxa
      exact ⟨put_self _ _, (hf.tiles.item ⟨a, u⟩ (by simp)).2⟩
    -- the other blocks stand at other addresses
    have hmem : x ∈ pre ++ ⟨a, u⟩ :: y :: post := by
      simp only [mem_append, mem_cons] at hx ⊢
      tauto
    have hne : x.addr ≠ a := by
      intro e
      exact hxa ((hf.tiles.toSpans.mark v).eq_of_addr hx (by simp) e)
    rw [put_of_ne _ _ hne]
    exact hf.tiles.item x hmem
  exact hf.free_other fun b k hk => put_of_ne_word _ _ (by show k ≠ 0; omega)

lemma newBlock (hf : Form L S m₀ m (pre ++ x :: y :: post) fs) (hn : n ∈ S)
    (h1 : x.addr + 36 ≤ n) (h2 : n + 36 ≤ y.addr) :
    Form L S m₀ (newBlock m L.heap x.addr n) (pre ++ x :: ⟨n, false⟩ :: y :: post) fs := by
  have hx : x.addr ∈ S := hf.blocks_mem x (by simp)
  have hy : m.word x.addr Item.next ∈ S := by
    rw [hf.tiles.links.1]
    exact hf.blocks_mem y (by simp)
  have hv := view_newBlock hf.sites hx hn (by omega) hy L.heap_lt
  refine hf.edit hv ?_ hf.free_mem (hf.tiles.wedge h1 h2) ?_
  · intro z hz
    by_cases hzn : z = ⟨n, false⟩
    · rw [hzn]
      exact hn
    refine hf.blocks_mem z ?_
    simp only [mem_append, mem_cons, hzn, false_or] at hz ⊢
    exact hz
  refine hf.free_other fun b k hk => ?_
  rw [wedge_other _ (by show k ≠ 2; omega) (by show k ≠ 3; omega),
    put_of_ne_word _ _ (by show k ≠ 1; omega), put_of_ne_word _ _ (by show k ≠ 0; omega)]

variable (hf : Form L S m₀ m (pre ++ x :: t :: y :: post) fs)

include hf

lemma bridge (hv : View 6 L.Region S m m' (bridge m.word x.addr y.addr Item.next Item.prev)) :
    Form L S m₀ m' (pre ++ x :: y :: post) fs := by
  have hsub : ∀ z ∈ pre ++ x :: y :: post, z ∈ pre ++ x :: t :: y :: post := by
    intro z hz
    simp only [mem_append, mem_cons] at hz ⊢
    tauto
  refine hf.edit hv (fun z hz => hf.blocks_mem z (hsub z hz)) hf.free_mem
    ⟨hf.tiles.toSpans.remove, ?_, fun z hz => ?_⟩ ?_
  · have hc := hf.tiles.circle
    simp only [map_append] at hc ⊢
    exact hc.bridge (by decide)
  · rw [bridge_other _ (by decide) (by decide), bridge_other _ (by decide) (by decide)]
    exact hf.tiles.item z (hsub z hz)
  exact hf.free_other fun b k hk =>
    bridge_other _ (by show k ≠ 2; omega) (by show k ≠ 3; omega)

lemma three : x.addr ∈ S ∧ t.addr ∈ S ∧ y.addr ∈ S ∧ m.word t.addr Item.prev = x.addr ∧
      m.word t.addr Item.next = y.addr := by
  have hf' : Form L S m₀ m ((pre ++ [x]) ++ t :: y :: post) fs := by simpa using hf
  exact ⟨hf.blocks_mem x (by simp), hf.blocks_mem t (by simp), hf.blocks_mem y (by simp),
    hf.tiles.links.2, hf'.tiles.links.1⟩

lemma absorb : Form L S m₀ (absorb m x.addr t.addr) (pre ++ x :: y :: post) fs := by
  obtain ⟨hx, ht, hy, -, hnext⟩ := hf.three
  have h1 := (View.refl 6 L.Region S m).set hf.sites hy (i := Item.prev) (by decide)
    (hf.sites.small _ hx)
  have h2 := h1.set hf.sites hx (i := Item.next) (by decide) (hf.sites.small _ hy)
  refine hf.bridge ?_
  have hread : (m.setWord y.addr Item.prev x.addr).word t.addr Item.next = y.addr := by
    rw [h1.word_eq _ ht _ (by decide), put_of_ne_word _ _ (by decide), hnext]
  simp only [Memheaps.absorb, hnext, hread]
  exact h2

lemma unlink_next :
    Form L S m₀ (m.unlink t.addr Item.next Item.prev) (pre ++ x :: y :: post) fs := by
  obtain ⟨hx, ht, hy, hprev, hnext⟩ := hf.three
  have h := (View.refl 6 L.Region S m).unlink hf.sites (i := Item.next) (j := Item.prev) (by decide)
    (by decide) (by decide) ht (by rwa [hprev]) (by rwa [hnext])
  rw [hprev, hnext] at h
  exact hf.bridge h

lemma unlink_prev : Form L S m₀ (m.unlink t.addr Item.prev Item.next) (pre ++ x :: y :: post) fs ∧
      (m.unlink t.addr Item.prev Item.next).word t.addr Item.prev = x.addr := by
  obtain ⟨hx, ht, hy, hprev, hnext⟩ := hf.three
  have h := (View.refl 6 L.Region S m).unlink hf.sites (i := Item.prev) (j := Item.next) (by decide)
    (by decide) (by decide) ht (by rwa [hnext]) (by rwa [hprev])
  rw [hprev, hnext] at h
  constructor
  · have hcomm := bridge_comm m.word (p := x.addr) (q := y.addr) (i := Item.next) (j := Item.prev)
      (by decide)
    exact hf.bridge (hcomm ▸ h)
  rw [h.word_eq _ ht _ (by decide), bridge_forward _ (by decide), hprev]
  exact ite_self x.addr

omit hf in
lemma payload (hf : Form L S m₀ m xs fs) (m' : Mem) (h : ∀ b ∈ S, Mem.Agree m m' b (b + 24))
    (hout : ∀ b, ¬ L.Region b → m' b = m b) : Form L S m₀ m' xs fs := by
  refine hf.edit ⟨fun b hb k hk => ?_, hout⟩ hf.blocks_mem hf.free_mem hf.tiles hf.free
  exact (Mem.word_congr (h b hb) hk).symm

end Form

end NbIot.Memheaps
