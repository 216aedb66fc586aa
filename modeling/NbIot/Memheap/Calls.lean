import NbIot.Memheap.Form
import NbIot.Heap.Calls

/-! # Allocation and release in a memheap

`Inv` is the representation invariant between two calls: the heap has a `Form`, the free ring holds
exactly the free blocks, no two free blocks are neighbours, and the counters of the
`struct rt_memheap` agree with the blocks. `Outcome` says what a call may do besides: it keeps the
invariant with new lists of blocks, writes to the region of its own heap only, and changes no other
`struct rt_memheap`.
-/

namespace NbIot.Memheaps

open List

open SmallMem (rtAlign alignSize rtAlign_mod rtAlign_le le_rtAlign)

/-! ## Used and free blocks -/

def usedOf (xs : List Blk) : List Nat := (xs.filter fun x => x.used).map Blk.addr

def freeOf (xs : List Blk) : List Nat := (xs.filter fun x => !x.used).map Blk.addr

def Coalesced (xs : List Blk) : Prop := xs.IsChain fun x y => x.used = true ∨ y.used = true

def freeBytes : List Blk → Nat
  | x :: y :: l => (if x.used then 0 else y.addr - x.addr - 24) + freeBytes (y :: l)
  | _ => 0

section

variable (l r : List Blk) (x y : Blk) (a : Nat) (u v : Bool)

@[simp] lemma usedOf_nil : usedOf [] = [] := rfl
@[simp] lemma freeOf_nil : freeOf [] = [] := rfl
@[simp] lemma usedOf_append : usedOf (l ++ r) = usedOf l ++ usedOf r := by simp [usedOf]
@[simp] lemma usedOf_cons : usedOf (x :: l) = (if x.used then [x.addr] else []) ++ usedOf l := by
  by_cases h : x.used <;> simp [usedOf, h]
@[simp] lemma freeOf_append : freeOf (l ++ r) = freeOf l ++ freeOf r := by simp [freeOf]
@[simp] lemma freeOf_cons : freeOf (x :: l) = (if x.used then [] else [x.addr]) ++ freeOf l := by
  by_cases h : x.used <;> simp [freeOf, h]

lemma mem_usedOf {l : List Blk} {a : Nat} : a ∈ usedOf l ↔ (⟨a, true⟩ : Blk) ∈ l := by
  simp only [usedOf, List.mem_map, mem_filter]
  constructor
  · rintro ⟨⟨b, u⟩, ⟨hx, hu⟩, rfl⟩
    simp only at hu
    rwa [hu] at hx
  intro h
  exact ⟨_, ⟨h, rfl⟩, rfl⟩

lemma mem_freeOf {l : List Blk} {a : Nat} : a ∈ freeOf l ↔ (⟨a, false⟩ : Blk) ∈ l := by
  simp only [freeOf, List.mem_map, mem_filter]
  constructor
  · rintro ⟨⟨b, u⟩, ⟨hx, hu⟩, rfl⟩
    simp only [Bool.not_eq_true'] at hu
    rwa [hu] at hx
  intro h
  exact ⟨_, ⟨h, rfl⟩, rfl⟩

lemma freeBytes_append : freeBytes (l ++ x :: r) = freeBytes (l ++ [x]) + freeBytes (x :: r) := by
  induction l with
  | nil => simp [freeBytes]
  | cons z l ih =>
    cases l with
    | nil => simp [freeBytes]
    | cons w l =>
      simp only [cons_append, freeBytes] at ih ⊢
      omega

lemma freeBytes_concat : freeBytes (l ++ [⟨a, u⟩]) = freeBytes (l ++ [⟨a, v⟩]) := by
  induction l with
  | nil => rfl
  | cons z l ih =>
    cases l with
    | nil => rfl
    | cons w l =>
      simp only [cons_append, freeBytes] at ih ⊢
      rw [ih]

lemma coalesced_used {l : List Blk} {x : Blk} (hc : Coalesced (l ++ [x])) :
    Coalesced (l ++ [⟨a, true⟩]) := by
  rw [Coalesced, isChain_append] at hc ⊢
  refine ⟨hc.1, isChain_singleton _, fun z _ b hb => .inr ?_⟩
  obtain rfl : (⟨a, true⟩ : Blk) = b := by simpa using hb
  rfl

lemma coalesced_insert {l r : List Blk} {y : Blk} {b : Nat} (hl : Coalesced (l ++ [⟨a, true⟩]))
    (hy : y.used = true) (hr : Coalesced (y :: r)) :
    Coalesced (l ++ ⟨a, true⟩ :: ⟨b, false⟩ :: y :: r) :=
  isChain_append_cons_cons.mpr
    ⟨hl, Or.inl rfl, isChain_cons_cons.mpr ⟨.inr hy, hr⟩⟩

lemma perm_of_middle {b c d e : List Nat} {n : Nat} (h : (b ++ n :: c).Perm (d ++ n :: e)) :
    (b ++ c).Perm (d ++ e) :=
  ((perm_middle.symm.trans h).trans perm_middle).cons_inv

lemma perm_insert {fs : List Nat} {l r : List Blk} {b : Nat} (h : fs.Perm (freeOf l ++ freeOf r)) :
    (b :: fs).Perm (freeOf (l ++ ⟨a, true⟩ :: ⟨b, false⟩ :: r)) := by
  have hlist : freeOf (l ++ ⟨a, true⟩ :: ⟨b, false⟩ :: r) = freeOf l ++ b :: freeOf r := by simp
  rw [hlist]
  exact (h.cons b).trans perm_middle.symm

lemma freeBytes_seam : freeBytes (l ++ x :: y :: r)
    = freeBytes (l ++ [⟨x.addr, true⟩]) + (if x.used then 0 else y.addr - x.addr - 24)
      + freeBytes (y :: r) := by
  rw [freeBytes_append, freeBytes_concat l x.addr x.used true, freeBytes, add_assoc]

lemma freeBytes_le {z : Blk} (hsp : (x :: l).IsChain fun x y => x.addr + 36 ≤ y.addr)
    (hz : (x :: l).getLast? = some z) :
    freeBytes (x :: l) + x.addr + 24 * l.length ≤ z.addr := by
  induction l generalizing x with
  | nil =>
    obtain rfl : x = z := by simpa using hz
    simp [freeBytes]
  | cons w l ih =>
    obtain ⟨h1, hsp⟩ := isChain_cons_cons.mp hsp
    have := ih w hsp hz
    rw [length_cons, freeBytes]
    split <;> omega

end

variable {L : Layout} {S : List Nat} {m₀ m : Mem} {s s' : Heaps} {h : Memheap}
  {xs xs' pre post : List Blk} {fs fs' f₁ f₂ : List Nat} {x y : Blk} {a p : Nat} {n size : Nat}

lemma Spans.freeBytes_le (hs : Spans L xs) : freeBytes xs + 48 ≤ L.pool := by
  have hroom := L.room
  cases xs with
  | nil => simpa using hs.first
  | cons x l =>
    have hfirst : x.addr = L.start := by simpa using hs.first
    have hle := Memheaps.freeBytes_le l x hs.spaced hs.last
    cases l with
    | nil =>
      have hlast : x = ⟨L.tail, true⟩ := by simpa using hs.last
      rw [hlast] at hfirst
      simp only [Layout.tail] at hfirst
      omega
    | cons y l =>
      simp only [length_cons, Layout.tail] at hle
      omega

/-! ## The invariant of a heap -/

structure Tidy (L : Layout) (h : Memheap) (xs : List Blk) (fs : List Nat) : Prop where
  startAddr : h.startAddr = L.start
  poolSize : h.poolSize = L.pool
  freeList : h.freeList = L.freeList
  free : fs.Perm (freeOf xs)
  coalesced : Coalesced xs
  available : h.availableSize = freeBytes xs
  maxUsed : h.poolSize ≤ h.maxUsedSize + h.availableSize

structure Inv (L : Layout) (s : Heaps) (xs : List Blk) (fs : List Nat) : Prop where
  form : Form L (itemsOf L xs) s.mem s.mem xs fs
  tidy : Tidy L (s.heap L.heap) xs fs

/-- What a call makes of the heap at `L`, and what it leaves alone. -/
structure Outcome (L : Layout) (s s' : Heaps) (xs' : List Blk) (fs' : List Nat) : Prop where
  inv : Inv L s' xs' fs'
  frame : ∀ x, ¬ L.Region x → s'.mem x = s.mem x
  others : ∀ k, k ≠ L.heap → s'.heap k = s.heap k

lemma Outcome.refl (hi : Inv L s xs fs) : Outcome L s s xs fs :=
  ⟨hi, fun _ _ => rfl, fun _ _ => rfl⟩

lemma Outcome.trans {s'' : Heaps} {xs'' : List Blk} {fs'' : List Nat}
    (h1 : Outcome L s s' xs' fs') (h2 : Outcome L s' s'' xs'' fs'') : Outcome L s s'' xs'' fs'' :=
  ⟨h2.inv, fun x hx => (h2.frame x hx).trans (h1.frame x hx),
    fun k hk => (h2.others k hk).trans (h1.others k hk)⟩

lemma Outcome.of_update (hf : Form L S s.mem m xs' fs') (ht : Tidy L h xs' fs') :
    Outcome L s (s.update m L.heap h) xs' fs' := by
  replace hf := hf.resite hf.tiles.toSpans.sites mem_cons_self (fun z hz => mem_itemsOf hz)
    fun b hb => mem_itemsOf (mem_freeOf.mp (ht.free.mem_iff.mp hb))
  refine ⟨⟨⟨hf.sites, hf.header_mem, hf.blocks_mem, hf.free_mem, hf.tiles, hf.free,
    fun _ _ => rfl⟩, ?_⟩, hf.frame, fun k hk => ?_⟩
  · show Tidy L (Function.update s.heap L.heap h L.heap) xs' fs'
    rwa [Function.update_self]
  exact Function.update_of_ne hk _ _

/-! ## Items -/

namespace Tidy

lemma raise (ht : Tidy L h xs fs) {n : Nat} (hfree : fs'.Perm (freeOf xs')) (hc : Coalesced xs')
    (hn : n = freeBytes xs') (hle : h.availableSize ≤ n) : Tidy L (h.setAvailable n) xs' fs' := by
  refine ⟨ht.startAddr, ht.poolSize, ht.freeList, hfree, hc, hn, ?_⟩
  have := ht.maxUsed
  show h.poolSize ≤ h.maxUsedSize + n
  omega

lemma lower (ht : Tidy L h xs fs) {n : Nat} (hs : Spans L xs') (hfree : fs'.Perm (freeOf xs'))
    (hc : Coalesced xs') (hn : n = freeBytes xs') : Tidy L (h.setAvailable n).noteUsed xs' fs' := by
  have hpool := L.pool_lt
  have hle := hs.freeBytes_le
  have hsub : sub32 h.poolSize n = L.pool - n := by
    rw [ht.poolSize]
    exact sub32_of_le (by omega) hpool
  have hp := ht.poolSize
  show Tidy L (if h.maxUsedSize < sub32 h.poolSize n then _ else _) xs' fs'
  split
  · refine ⟨ht.startAddr, ht.poolSize, ht.freeList, hfree, hc, hn, ?_⟩
    show h.poolSize ≤ sub32 h.poolSize n + n
    omega
  refine ⟨ht.startAddr, ht.poolSize, ht.freeList, hfree, hc, hn, ?_⟩
  show h.poolSize ≤ h.maxUsedSize + n
  omega

end Tidy

namespace Form

lemma isUsed_iff (hf : Form L S m₀ m xs fs) (hx : x ∈ xs) : isUsed m x.addr ↔ x.used = true := by
  rw [isUsed, (hf.tiles.item x hx).1, Blk.magic]
  cases x.used <;> decide

lemma hasMagic (hf : Form L S m₀ m xs fs) (hx : x ∈ xs) : hasMagic m x.addr := by
  rw [Memheaps.hasMagic, (hf.tiles.item x hx).1, Blk.magic]
  cases x.used <;> decide

lemma addr_le (hf : Form L S m₀ m xs fs) (hx : x ∈ xs) : x.addr + 24 ≤ wordSize := by
  have := hf.tiles.toSpans.inside_add hx
  have := L.fits
  omega

lemma memitemSize_eq (hf : Form L S m₀ m (pre ++ x :: y :: post) fs) :
    memitemSize m x.addr = y.addr - x.addr - 24 := by
  have hlt := hf.tiles.toSpans.lt_next
  have hy := hf.addr_le (x := y) (by simp)
  have hgap : sub32 y.addr x.addr = y.addr - x.addr := sub32_of_le (by omega) (by omega)
  rw [memitemSize, hf.tiles.links.1, hgap]
  exact sub32_of_le (by unfold memheapSize; omega) (by omega)

end Form

namespace Inv

lemma cut_free (hi : Inv L s xs fs) (hp : p ∈ fs) : ∃ pre y post f₁ f₂,
    xs = pre ++ ⟨p, false⟩ :: y :: post ∧ fs = f₁ ++ p :: f₂ ∧ y.used = true := by
  have hmem : (⟨p, false⟩ : Blk) ∈ xs := mem_freeOf.mp (hi.tidy.free.mem_iff.mp hp)
  obtain ⟨f₁, f₂, hfs⟩ := append_of_mem hp
  obtain ⟨pre, post, rfl⟩ := append_of_mem hmem
  obtain ⟨y, post, rfl⟩ := hi.form.tiles.toSpans.exists_next (by simp)
  refine ⟨pre, y, post, f₁, f₂, rfl, hfs, ?_⟩
  simpa using (isChain_append_cons_cons.mp hi.tidy.coalesced).2.1

lemma cut_used (hi : Inv L s xs fs) (hp : (⟨p, true⟩ : Blk) ∈ xs) (hne : p ≠ L.tail) :
    ∃ pre y post, xs = pre ++ ⟨p, true⟩ :: y :: post := by
  obtain ⟨pre, post, rfl⟩ := append_of_mem hp
  obtain ⟨y, post, rfl⟩ := hi.form.tiles.toSpans.exists_next (by simpa using hne)
  exact ⟨pre, y, post, rfl⟩

/-! ## Sizes -/

lemma minialloc_lt (hi : Inv L s xs fs) (hp : (⟨p, true⟩ : Blk) ∈ xs) (hne : p ≠ L.tail) {n : Nat}
    (hn : memitemSize s.mem p < n) : 12 < n := by
  obtain ⟨pre, y, post, rfl⟩ := hi.cut_used hp hne
  have hlt : p + 36 ≤ y.addr := hi.form.tiles.toSpans.lt_next
  have hsize : memitemSize s.mem p = y.addr - p - 24 := hi.form.memitemSize_eq
  omega

lemma size_le (hi : Inv L s xs fs) (hp : (⟨p, true⟩ : Blk) ∈ xs) (hne : p ≠ L.tail) :
    memitemSize s.mem p + 48 ≤ wordSize := by
  obtain ⟨pre, y, post, rfl⟩ := hi.cut_used hp hne
  have hlt : p + 36 ≤ y.addr := hi.form.tiles.toSpans.lt_next
  have hsize : memitemSize s.mem p = y.addr - p - 24 := hi.form.memitemSize_eq
  have hend := hi.form.addr_le (x := y) (by simp)
  omega

lemma available_le (hi : Inv L s xs fs) : (s.heap L.heap).availableSize + 48 ≤ L.pool := by
  rw [hi.tidy.available]
  exact hi.form.tiles.toSpans.freeBytes_le

end Inv

lemma minialloc_le_roundSize (n : Nat) : 12 ≤ roundSize n := by
  unfold roundSize minialloc
  split <;> omega

lemma roundSize_lt (n : Nat) : roundSize n ≤ wordSize - 4 := by
  have := rtAlign_le n
  unfold roundSize minialloc wordSize at *
  split <;> omega

lemma splitSize_eq (h : n + 36 < wordSize) : add32 (add32 n memheapSize) minialloc = n + 36 := by
  have h24 : add32 n memheapSize = n + 24 := add32_of_lt (show n + 24 < wordSize by omega)
  rw [h24]
  exact add32_of_lt h

lemma le_roundSize (hn : n < wordSize) (h : 12 < roundSize n) : n ≤ roundSize n := by
  by_cases hle : n ≤ wordSize - 4
  · have := le_rtAlign hle
    unfold roundSize minialloc
    split <;> omega
  unfold roundSize rtAlign alignSize minialloc add32 wordSize at *
  split at h <;> omega

lemma roundSize_idem (n : Nat) : roundSize (roundSize n) = roundSize n := by
  have hmod : roundSize n % 4 = 0 := by
    unfold roundSize minialloc
    split
    · rfl
    exact rtAlign_mod n
  have hle := roundSize_lt n
  have hmin := minialloc_le_roundSize n
  have halign : rtAlign (roundSize n) alignSize = roundSize n := by
    have hlt : roundSize n + (alignSize - 1) < wordSize := by
      unfold alignSize wordSize at *
      omega
    unfold rtAlign
    rw [add32_of_lt hlt]
    unfold alignSize
    omega
  rw [roundSize, halign]
  exact if_neg (by unfold minialloc; omega)

/-! ## `rt_memheap_alloc` -/

lemma searchFree_spec {freeList : Nat}
    (hr : Ring (m.word · Item.nextFree) (m.word · Item.prevFree) freeList fs) :
    ∀ (rest done : List Nat) (fuel freeSize : Nat), fs = done ++ rest → rest.length + 2 ≤ fuel →
      freeSize < size →
      ∃ q sz, searchFree m freeList size fuel (behind freeList rest) freeSize = some (q, sz) ∧
        ((sz < size ∧ ∀ b ∈ rest, memitemSize m b < size) ∨
          (q ∈ rest ∧ sz = memitemSize m q ∧ size ≤ sz)) := by
  intro rest
  induction rest with
  | nil =>
    intro done fuel freeSize _ hfuel hlt
    obtain ⟨fuel, rfl⟩ : ∃ k, fuel = k + 1 := ⟨fuel - 1, by omega⟩
    refine ⟨freeList, freeSize, ?_, Or.inl ⟨hlt, by simp⟩⟩
    simp [searchFree]
  | cons q rest ih =>
    intro done fuel freeSize hfs hfuel hlt
    obtain ⟨fuel, rfl⟩ : ∃ k, fuel = k + 2 := ⟨fuel - 2, by omega⟩
    have hq : q ≠ freeList := by
      intro e
      exact hr.notMem_head (by simp [hfs, e])
    have hnext : m.word q Item.nextFree = behind freeList rest := by
      rw [hfs] at hr
      exact hr.neighbours.2
    rw [behind_cons, searchFree, if_pos ⟨hq, hlt⟩]
    by_cases hsz : memitemSize m q < size
    · obtain ⟨r, sz, heq, hres⟩ := ih (done ++ [q]) (fuel + 1) (memitemSize m q) (by simp [hfs])
        (by simp only [length_cons] at hfuel; omega) hsz
      refine ⟨r, sz, ?_, ?_⟩
      · simp only [hsz, hnext]
        exact heq
      rcases hres with ⟨h1, h2⟩ | ⟨h1, h2⟩
      · refine .inl ⟨h1, fun b hb => ?_⟩
        rcases mem_cons.mp hb with rfl | hb
        · exact hsz
        exact h2 b hb
      exact .inr ⟨mem_cons_of_mem q h1, h2⟩
    -- one more look at the loop condition
    refine ⟨q, memitemSize m q, ?_, Or.inr ⟨mem_cons_self, rfl, by omega⟩⟩
    simp only [hsz, if_false, searchFree]
    rw [if_neg fun hc => hc.2]

lemma Form.split_sites (hf : Form L S m₀ m (pre ++ x :: y :: post) fs)
    (hfree : fs.Perm (freeOf (pre ++ x :: y :: post))) (h1 : x.addr + 36 ≤ n)
    (h2 : n + 36 ≤ y.addr) :
    Form L (itemsOf L (pre ++ x :: ⟨n, false⟩ :: y :: post)) m₀ m (pre ++ x :: y :: post) fs ∧
      n ∈ itemsOf L (pre ++ x :: ⟨n, false⟩ :: y :: post) ∧ n ∉ L.freeList :: fs := by
  have hspan : Spans L (pre ++ x :: ⟨n, false⟩ :: y :: post) := hf.tiles.toSpans.insert h1 h2
  have hmem : ∀ z ∈ pre ++ x :: y :: post,
      z.addr ∈ itemsOf L (pre ++ x :: ⟨n, false⟩ :: y :: post) := by
    intro z hz
    refine mem_itemsOf ?_
    simp only [mem_append, mem_cons] at hz ⊢
    tauto
  refine ⟨hf.resite hspan.sites mem_cons_self hmem fun b hb => ?_, ?_, ?_⟩
  · exact hmem ⟨b, false⟩ (mem_freeOf.mp (hfree.mem_iff.mp hb))
  · exact mem_itemsOf (x := ⟨n, false⟩) (by simp)
  intro hc
  rcases mem_cons.mp hc with e | hc
  · exact hspan.ne_header (x := ⟨n, false⟩) (by simp) e
  have hz := mem_freeOf.mp (hfree.mem_iff.mp hc)
  exact hf.tiles.toSpans.insert_ne h1 h2 hz rfl

lemma Form.mark_used (hf : Form L S m₀ m (pre ++ ⟨p, false⟩ :: y :: post) fs) :
    Form L S m₀ (m.setWord p Item.magic (m.word p Item.magic ||| memheapUsed))
      (pre ++ ⟨p, true⟩ :: y :: post) fs := by
  have hword : m.word p Item.magic = Blk.magic ⟨p, false⟩ := (hf.tiles.item ⟨p, false⟩ (by simp)).1
  rw [hword]
  exact hf.mark true

lemma take_whole (hi : Inv L s (pre ++ ⟨p, false⟩ :: y :: post) (f₁ ++ p :: f₂))
    (hsz : size + 36 < wordSize) (hsplit : y.addr - p - 24 < size + 36) :
    Outcome L s (takeBlock s L.heap p (y.addr - p - 24) size) (pre ++ ⟨p, true⟩ :: y :: post)
      (f₁ ++ f₂) := by
  have hf := hi.form.takeFree.mark_used
  have hs := hi.form.tiles.toSpans
  have hcond : ¬ add32 (add32 size memheapSize) minialloc ≤ y.addr - p - 24 := by
    rw [splitSize_eq hsz]
    omega
  have havail : sub32 (s.heap L.heap).availableSize (y.addr - p - 24)
      = freeBytes (pre ++ ⟨p, true⟩ :: y :: post) := by
    have hle := hi.available_le
    have hpool := L.pool_lt
    have heq := hi.tidy.available
    rw [freeBytes_seam] at heq ⊢
    simp only [Bool.false_eq_true, if_false, if_true] at heq ⊢
    rw [sub32_of_le (by omega) (by omega)]
    omega
  have hperm : (f₁ ++ f₂).Perm (freeOf (pre ++ ⟨p, true⟩ :: y :: post)) := by
    have h : (f₁ ++ p :: f₂).Perm (freeOf pre ++ p :: freeOf (y :: post)) := by
      simpa using hi.tidy.free
    simpa using perm_of_middle h
  have htidy := hi.tidy.lower (hs.mark true) hperm ?_ havail
  · have heq : takeBlock s L.heap p (y.addr - p - 24) size = s.update
        ((takeFree s.mem p).setWord p Item.magic
          ((takeFree s.mem p).word p Item.magic ||| memheapUsed)) L.heap
        ((s.heap L.heap).setAvailable
          (sub32 (s.heap L.heap).availableSize (y.addr - p - 24))).noteUsed := by
      simp only [takeBlock, if_neg hcond]
      rfl
    rw [heq]
    exact Outcome.of_update hf htidy
  obtain ⟨h1, -, h3⟩ := isChain_append_cons_cons.mp hi.tidy.coalesced
  exact isChain_append_cons_cons.mpr ⟨coalesced_used p h1, Or.inl rfl, h3⟩

lemma take_split (hi : Inv L s (pre ++ ⟨p, false⟩ :: y :: post) (f₁ ++ p :: f₂)) (hmin : 12 ≤ size)
    (hy : y.used = true) (hsplit : size + 36 ≤ y.addr - p - 24) (hn : n = p + size + 24) :
    Outcome L s (takeBlock s L.heap p (y.addr - p - 24) size)
      (pre ++ ⟨p, true⟩ :: ⟨n, false⟩ :: y :: post) (n :: (f₁ ++ f₂)) := by
  have hylt := hi.form.addr_le (x := y) (by simp)
  have h1 : p + 36 ≤ n := by omega
  have h2 : n + 36 ≤ y.addr := by omega
  obtain ⟨hf0, hmem, hnot⟩ := hi.form.split_sites hi.tidy.free h1 h2
  have hnot' : n ∉ L.freeList :: (f₁ ++ f₂) := by
    simp only [mem_cons, mem_append, not_or] at hnot ⊢
    tauto
  have hf := ((hf0.newBlock hmem h1 h2).takeFree.insertFree hmem hnot').mark_used
  have hs := hi.form.tiles.toSpans.insert (t := ⟨n, false⟩) h1 h2
  have hcond : add32 (add32 size memheapSize) minialloc ≤ y.addr - p - 24 := by
    rw [splitSize_eq (by omega)]
    omega
  have hnew : add32 (add32 p size) memheapSize = n := by
    rw [add32_of_lt (show p + size < wordSize by omega), hn]
    exact add32_of_lt (show p + size + 24 < wordSize by omega)
  have havail : sub32 (sub32 (s.heap L.heap).availableSize size) memheapSize
      = freeBytes (pre ++ ⟨p, true⟩ :: ⟨n, false⟩ :: y :: post) := by
    have hle := hi.available_le
    have hpool := L.pool_lt
    have heq := hi.tidy.available
    rw [freeBytes_seam] at heq ⊢
    simp only [freeBytes, Bool.false_eq_true, if_false, if_true] at heq ⊢
    rw [sub32_of_le (show size ≤ _ by omega) (by omega),
      sub32_of_le (show memheapSize ≤ _ by unfold memheapSize; omega) (by omega)]
    unfold memheapSize
    omega
  have hperm : (f₁ ++ p :: f₂).Perm (freeOf pre ++ p :: freeOf (y :: post)) := by
    simpa using hi.tidy.free
  have htidy := hi.tidy.lower (hs.mark true) (perm_insert p (perm_of_middle hperm)) ?_ havail
  · have heq : takeBlock s L.heap p (y.addr - p - 24) size = s.update
        ((insertFree (takeFree (newBlock s.mem L.heap p n) p) L.freeList
          n).setWord p Item.magic
          ((insertFree (takeFree (newBlock s.mem L.heap p n) p) L.freeList
            n).word p Item.magic ||| memheapUsed)) L.heap
        ((s.heap L.heap).setAvailable
          (sub32 (sub32 (s.heap L.heap).availableSize size) memheapSize)).noteUsed := by
      simp only [takeBlock, if_pos hcond, hnew, hi.tidy.freeList]
      rfl
    rw [heq]
    exact Outcome.of_update hf htidy
  obtain ⟨h1, -, h3⟩ := isChain_append_cons_cons.mp hi.tidy.coalesced
  exact coalesced_insert p (coalesced_used p h1) hy h3

lemma Form.length_free (hf : Form L S m₀ m xs fs) : fs.length + 1 ≤ wordSize := by
  have hsub : (L.freeList :: fs) ⊆ List.range wordSize := by
    intro b hb
    rw [mem_range]
    rcases mem_cons.mp hb with rfl | hb
    · exact hf.sites.small _ hf.header_mem
    exact hf.sites.small _ (hf.free_mem b hb)
  have hlen := (hf.free.nodup.subperm hsub).length_le
  rwa [length_range] at hlen

/-- The heap has room for `n` bytes: `available_size` is larger, and so is a free block. -/
def Room (L : Layout) (s : Heaps) (fs : List Nat) (n : Nat) : Prop :=
  roundSize n < (s.heap L.heap).availableSize ∧ ∃ b ∈ fs, roundSize n ≤ memitemSize s.mem b

/-- **`rt_memheap_alloc`** returns `RT_NULL` and leaves the heap as it is, if it has no room; or it
returns the payload of a block that was not used before and is large enough. -/
theorem alloc_spec (hi : Inv L s xs fs) (size : Nat) :
    (rtMemheapAlloc s L.heap size = some (s, 0) ∧ ¬ Room L s fs size) ∨
    ∃ s' a xs' fs', rtMemheapAlloc s L.heap size = some (s', a + 24) ∧ Outcome L s s' xs' fs' ∧
      (usedOf xs').Perm (a :: usedOf xs) ∧ Room L s fs size ∧
      ∃ pre y post, xs' = pre ++ ⟨a, true⟩ :: y :: post ∧ roundSize size ≤ y.addr - a - 24 := by
  have hmin := minialloc_le_roundSize size
  by_cases hav : roundSize size < (s.heap L.heap).availableSize
  · -- the search on the free list
    have hring : Ring (s.mem.word · Item.nextFree) (s.mem.word · Item.prevFree)
        (s.heap L.heap).freeList fs := by
      rw [hi.tidy.freeList]
      exact hi.form.free
    have hfirst : s.mem.word (s.heap L.heap).freeList Item.nextFree
        = behind (s.heap L.heap).freeList fs := hring.next_head
    obtain ⟨q, sz, hsearch, hres⟩ := searchFree_spec hring fs [] (wordSize + 1) 0 rfl
      (by have := hi.form.length_free; omega) (show 0 < roundSize size by omega)
    have halloc : rtMemheapAlloc s L.heap size = some (if roundSize size ≤ sz then
        (takeBlock s L.heap q sz (roundSize size), add32 q memheapSize) else (s, 0)) := by
      simp only [rtMemheapAlloc, if_pos hav, hfirst, hsearch, Option.map_some]
    rcases hres with ⟨hsmall, hall⟩ | ⟨hq, rfl, hfit⟩
    · left
      rw [halloc, if_neg (by omega)]
      exact ⟨rfl, fun ⟨_, b, hb, hfit⟩ => absurd (hall b hb) (by omega)⟩
    right
    have hroom : Room L s fs size := ⟨hav, q, hq, hfit⟩
    obtain ⟨pre, y, post, f₁, f₂, rfl, rfl, hy⟩ := hi.cut_free hq
    have hsize : memitemSize s.mem q = y.addr - q - 24 := hi.form.memitemSize_eq
    have hylt := hi.form.addr_le (x := y) (by simp)
    have hptr : add32 q memheapSize = q + 24 := add32_of_lt (show q + 24 < wordSize by omega)
    rw [halloc, if_pos hfit, hptr, hsize]
    rw [hsize] at hfit
    by_cases hsplit : roundSize size + 36 ≤ y.addr - q - 24
    · refine ⟨_, q, _, _, rfl, take_split hi hmin hy hsplit rfl, ?_, hroom, pre, _, _, rfl, ?_⟩
      · simp
      simp only
      omega
    refine ⟨_, q, _, _, rfl, take_whole hi (by omega) (by omega), ?_, hroom, pre, y, post, rfl,
      hfit⟩
    simp
  left
  exact ⟨by simp only [rtMemheapAlloc, if_neg hav], fun hroom => hav hroom.1⟩

/-! ## `rt_memheap_free` -/

lemma Memheap.setAvailable_self (hn : h.availableSize = a) : h.setAvailable a = h := by
  subst hn
  rfl

lemma notMem_of_perm (hs : Spans L (pre ++ x :: post)) (hperm : fs.Perm (freeOf (pre ++ post))) :
    x.addr ∉ L.freeList :: fs := by
  intro hc
  rcases mem_cons.mp hc with e | hc
  · exact hs.ne_header (by simp) e
  have hmem := mem_freeOf.mp (hperm.mem_iff.mp hc)
  exact hs.rest_ne hmem rfl

/-- The heap in the middle of a release, between the two merges: the free block `q` stands in front
of `y`, and still has to be put on the free ring if `ins` is set. -/
structure Merging (L : Layout) (S : List Nat) (m₀ m : Mem) (pre : List Blk) (q : Nat) (y : Blk)
    (post : List Blk) (fs : List Nat) (ins : Bool) : Prop where
  form : Form L S m₀ m (pre ++ ⟨q, false⟩ :: y :: post) fs
  coalesced : Coalesced (pre ++ [⟨q, false⟩]) ∧ Coalesced (y :: post)
  free : ((if ins then [q] else []) ++ fs).Perm (freeOf (pre ++ ⟨q, false⟩ :: y :: post))
  loose : ins = true → q ∉ L.freeList :: fs

lemma Spans.freeBytes_merge {q : Nat}
    (hs : Spans L (pre ++ ⟨q, false⟩ :: ⟨p, false⟩ :: y :: post)) :
    freeBytes (pre ++ ⟨q, false⟩ :: y :: post)
      = freeBytes (pre ++ ⟨q, false⟩ :: ⟨p, false⟩ :: y :: post) + 24 := by
  have hs' : Spans L ((pre ++ [⟨q, false⟩]) ++ ⟨p, false⟩ :: y :: post) := by simpa using hs
  have h1 := hs.lt_next
  have h2 := hs'.lt_next
  rw [freeBytes_seam, freeBytes_seam pre]
  simp only [freeBytes, Bool.false_eq_true, if_false] at h1 h2 ⊢
  omega

lemma Spans.add_header (hs : Spans L xs) (hn : freeBytes xs = n + 24) :
    add32 n memheapSize = n + 24 := by
  have hle := hs.freeBytes_le
  have hpool := L.pool_lt
  exact add32_of_lt (show n + 24 < wordSize by omega)

lemma mergePrev_spec (hf : Form L S m₀ m (pre ++ ⟨p, false⟩ :: y :: post) fs) (hc : Coalesced pre)
    (hc' : Coalesced (y :: post)) (hperm : fs.Perm (freeOf (pre ++ y :: post)))
    (hav : h.availableSize = freeBytes (pre ++ ⟨p, false⟩ :: y :: post)) :
    ∃ m' q ins pre', mergePrev m h p = (m', h.setAvailable
        (freeBytes (pre' ++ ⟨q, false⟩ :: y :: post)), q, ins) ∧
      Merging L S m₀ m' pre' q y post fs ins ∧ usedOf pre' = usedOf pre ∧
      h.availableSize ≤ freeBytes (pre' ++ ⟨q, false⟩ :: y :: post) := by
  rcases eq_nil_or_concat' pre with rfl | ⟨pre', ⟨q, u⟩, rfl⟩
  · -- the first block: the block list leads back to the used tail
    have hused : isUsed m (m.word p Item.prev) := by
      have hprev : m.word p Item.prev = L.tail := hf.tiles.prev_first
      rw [hprev]
      exact (hf.isUsed_iff hf.tiles.toSpans.tail_mem).mpr rfl
    refine ⟨m, p, true, [], ?_, ⟨hf, ⟨isChain_singleton _, hc'⟩, ?_, fun _ => ?_⟩, rfl, hav.le⟩
    · rw [mergePrev, if_pos hused, Memheap.setAvailable_self hav]
    · simpa using hperm
    exact notMem_of_perm hf.tiles.toSpans hperm
  have hf' : Form L S m₀ m (pre' ++ ⟨q, u⟩ :: ⟨p, false⟩ :: y :: post) fs := by simpa using hf
  have hprev : m.word p Item.prev = q := hf'.tiles.links.2
  have hiff := hf'.isUsed_iff (x := ⟨q, u⟩) (by simp)
  cases u with
  | true =>
    have hused : isUsed m (m.word p Item.prev) := by
      rw [hprev]
      exact hiff.mpr rfl
    refine ⟨m, p, true, pre' ++ [⟨q, true⟩], ?_, ⟨by exact hf, ⟨?_, hc'⟩, ?_, fun _ => ?_⟩,
      by simp, by exact hav.le⟩
    · rw [mergePrev, if_pos hused, Memheap.setAvailable_self (by exact hav)]
    · rw [append_assoc]
      exact isChain_append_cons_cons.mpr
        ⟨hc, Or.inl rfl, isChain_singleton _⟩
    · have h := hperm.cons p
      rw [freeOf_append] at h
      refine h.trans (perm_middle.symm.trans (.of_eq ?_))
      simp
    exact notMem_of_perm hf.tiles.toSpans hperm
  | false =>
    have hnot : ¬ isUsed m (m.word p Item.prev) := by
      rw [hprev]
      exact fun hused => Bool.false_ne_true (hiff.mp hused)
    obtain ⟨hform, hread⟩ := hf'.unlink_prev
    have hbytes : freeBytes (pre' ++ ⟨q, false⟩ :: y :: post) = h.availableSize + 24 := by
      rw [hf'.tiles.toSpans.freeBytes_merge, hav]
      simp
    have hadd := hform.tiles.toSpans.add_header hbytes
    refine ⟨_, q, false, pre', ?_, ⟨hform, ⟨by exact hc, hc'⟩, ?_, by simp⟩, by simp, by omega⟩
    · rw [mergePrev, if_neg hnot, hbytes, hadd]
      simp only [Prod.mk.injEq, true_and, and_true]
      exact hread
    simpa using hperm

lemma mergeNext_spec {q : Nat} {ins : Bool} (hm : Merging L S m₀ m pre q y post fs ins)
    (hav : h.availableSize = freeBytes (pre ++ ⟨q, false⟩ :: y :: post)) :
    ∃ m' y' post' fs', mergeNext m h q = (m', h.setAvailable
        (freeBytes (pre ++ ⟨q, false⟩ :: y' :: post'))) ∧
      Merging L S m₀ m' pre q y' post' fs' ins ∧ y'.used = true ∧
      usedOf (y' :: post') = usedOf (y :: post) ∧
      h.availableSize ≤ freeBytes (pre ++ ⟨q, false⟩ :: y' :: post') := by
  have hf := hm.form
  have hnext : m.word q Item.next = y.addr := hf.tiles.links.1
  have hiff := hf.isUsed_iff (x := y) (by simp)
  obtain ⟨a, u⟩ := y
  cases u with
  | true =>
    have hused : isUsed m (m.word q Item.next) := by
      rw [hnext]
      exact hiff.mpr rfl
    refine ⟨m, ⟨a, true⟩, post, fs, ?_, hm, rfl, rfl, hav.le⟩
    rw [mergeNext, if_pos hused, Memheap.setAvailable_self hav]
  | false =>
    have hnot : ¬ isUsed m (m.word q Item.next) := by
      rw [hnext]
      exact fun hused => Bool.false_ne_true (hiff.mp hused)
    have hsp := hf.tiles.toSpans
    have hsp' : Spans L ((pre ++ [⟨q, false⟩]) ++ ⟨a, false⟩ :: post) := by simpa using hsp
    obtain ⟨z, post', rfl⟩ := hsp'.exists_next (by simp)
    have hz : z.used = true := by simpa using (isChain_cons_cons.mp hm.coalesced.2).1
    -- the block behind is on the free ring
    have hafs : a ∈ fs := by
      have hin : a ∈ (if ins then [q] else []) ++ fs := by
        rw [hm.free.mem_iff]
        simp
      have haq : a ≠ q := by
        have := hsp.lt_next
        simp only at this
        omega
      rcases mem_append.mp hin with h | h
      · cases ins with
        | true => exact absurd (mem_singleton.mp h) haq
        | false => simp at h
      exact h
    obtain ⟨f₁, f₂, rfl⟩ := append_of_mem hafs
    have hform := hf.absorb.removeFree
    have hbytes : freeBytes (pre ++ ⟨q, false⟩ :: z :: post') = h.availableSize + 24 := by
      rw [hsp.freeBytes_merge, hav]
    have hadd := hform.tiles.toSpans.add_header hbytes
    refine ⟨_, z, post', f₁ ++ f₂, ?_, ⟨hform, ⟨hm.coalesced.1,
      (isChain_cons_cons.mp hm.coalesced.2).2⟩, ?_, fun hins hc => ?_⟩, hz, by simp,
      by omega⟩
    · rw [mergeNext, if_neg hnot, hbytes, hadd, hnext]
    · have h : (((if ins then [q] else []) ++ f₁) ++ a :: f₂).Perm
          ((freeOf pre ++ [q]) ++ a :: freeOf (z :: post')) := by simpa using hm.free
      simpa using perm_of_middle h
    refine hm.loose hins ?_
    simp only [mem_cons, mem_append] at hc ⊢
    tauto

lemma free_spec (hi : Inv L s xs fs) (hp : (⟨p, true⟩ : Blk) ∈ xs) (hne : p ≠ L.tail) :
    ∃ s' xs' fs', rtMemheapFree s (p + 24) = some s' ∧ Outcome L s s' xs' fs' ∧
      (usedOf xs).Perm (p :: usedOf xs') ∧ ∀ z ∈ xs', z.addr ∈ itemsOf L xs := by
  obtain ⟨pre, y, post, rfl⟩ := hi.cut_used hp hne
  have hf := hi.form
  have hsp := hf.tiles.toSpans
  have hylt := hf.addr_le (x := y) (by simp)
  have hpy : p + 36 ≤ y.addr := hsp.lt_next
  -- the assertions
  have hhead : sub32 (p + 24) memheapSize = p := sub32_of_le (show 24 ≤ p + 24 by omega) (by omega)
  have hnext : s.mem.word p Item.next = y.addr := hf.tiles.links.1
  have hassert : hasMagic s.mem p ∧ isUsed s.mem p ∧ hasMagic s.mem (s.mem.word p Item.next) :=
    ⟨hf.hasMagic hp, (hf.isUsed_iff hp).mpr rfl, by
      rw [hnext]
      exact hf.hasMagic (by simp)⟩
  have hpool : s.mem.word p Item.poolPtr = L.heap := (hf.tiles.item _ hp).2
  have hcall : rtMemheapFree s (p + 24) = some (release s L.heap p) := by
    rw [rtMemheapFree, if_neg (by omega), hhead, if_pos hassert, hpool]
  -- the block is marked as free, and its bytes are counted
  have hmark := hf.mark false
  have hword : s.mem.word p Item.magic &&& memheapMask = Blk.magic ⟨p, false⟩ := by
    rw [(hf.tiles.item _ hp).1]
    show (memheapMagic ||| memheapUsed) &&& memheapMask = memheapMagic
    decide
  obtain ⟨hc1, -, hc2⟩ := isChain_append_cons_cons.mp hi.tidy.coalesced
  have hsize := hmark.memitemSize_eq
  have hav : add32 (s.heap L.heap).availableSize (y.addr - p - 24)
      = freeBytes (pre ++ ⟨p, false⟩ :: y :: post) := by
    have hle := hmark.tiles.toSpans.freeBytes_le
    have hlt := L.pool_lt
    have heq := hi.tidy.available
    rw [freeBytes_seam] at heq hle ⊢
    simp only [Bool.false_eq_true, if_false, if_true] at heq hle ⊢
    rw [add32_of_lt (by omega)]
    omega
  have hperm : fs.Perm (freeOf (pre ++ y :: post)) := by simpa using hi.tidy.free
  obtain ⟨m', q, ins, pre', hprev, hm, hused, hle⟩ :=
    mergePrev_spec (h := (s.heap L.heap).setAvailable
      (freeBytes (pre ++ ⟨p, false⟩ :: y :: post))) hmark (isChain_append.mp hc1).1 hc2 hperm rfl
  obtain ⟨m'', y', post', fs', hmerge, hm', hy', hused', hle'⟩ :=
    mergeNext_spec (h := (s.heap L.heap).setAvailable
      (freeBytes (pre' ++ ⟨q, false⟩ :: y :: post))) hm rfl
  have hav0 : (s.heap L.heap).availableSize ≤ freeBytes (pre ++ ⟨p, false⟩ :: y :: post) := by
    rw [hi.tidy.available, freeBytes_seam, freeBytes_seam]
    simp only [if_true]
    omega
  have hcoal : Coalesced (pre' ++ ⟨q, false⟩ :: y' :: post') :=
    isChain_append_cons_cons.mpr ⟨hm'.coalesced.1, Or.inr hy', hm'.coalesced.2⟩
  have htidy := hi.tidy.raise hm'.free hcoal rfl (hav0.trans (hle.trans hle'))
  -- the block that is left is put on the free ring if it was not merged
  have hins : Form L (itemsOf L (pre ++ ⟨p, true⟩ :: y :: post)) s.mem
      (if ins then insertFree m'' L.freeList q else m'')
      (pre' ++ ⟨q, false⟩ :: y' :: post') ((if ins then [q] else []) ++ fs') := by
    cases ins with
    | true => exact hm'.form.insertFree (hm'.form.blocks_mem ⟨q, false⟩ (by simp)) (hm'.loose rfl)
    | false => exact hm'.form
  refine ⟨_, pre' ++ ⟨q, false⟩ :: y' :: post', (if ins then [q] else []) ++ fs', hcall, ?_, ?_,
    hins.blocks_mem⟩
  · have hrel : release s L.heap p = s.update (if ins then insertFree m'' L.freeList q else m'')
        L.heap ((s.heap L.heap).setAvailable
          (freeBytes (pre' ++ ⟨q, false⟩ :: y' :: post'))) := by
      simp only [release, hword, hsize, hav, hprev, Memheap.setAvailable_setAvailable, hmerge,
        Memheap.setAvailable_freeList, hi.tidy.freeList]
    rw [hrel]
    exact Outcome.of_update hins htidy
  rw [usedOf_append, usedOf_append, usedOf_cons _ ⟨q, false⟩, hused, hused']
  exact perm_middle

end NbIot.Memheaps
