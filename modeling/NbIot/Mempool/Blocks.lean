import NbIot.Basic.Chain
import NbIot.Heap.Runs
import NbIot.Mempool.Waiters

/-! # The blocks of a memory pool

`rt_mp_create` takes the memory of a pool from the heap; from then on it is a pool like one that
`rt_mp_init` has made. The link of a free block and the owner of a block that is held are the same
word, so everything rests on the blocks being in different places (`Layout`). `rt_mp_init` divides
the memory it is given; `rt_mp_create` multiplies, and its product wraps.
-/

namespace NbIot.Mempools

open Queues Kernel SmallMem List Run

/-! ## `rt_mp_create` -/

variable {T : Type} {blockSize : Nat} {p : Pool} {m : Mem} {s : State T}

/-- `sizeof(struct rt_mempool)`. -/
def mempoolSize : Nat := 56

/-- `rt_mp_create`: the heap after the call, and the pool with the address of its control block
unless the heap had no memory for the two. -/
def rtMpCreate (h : Heap) (blockCount blockSize : Nat) : Option (Heap × Option (Nat × Pool)) :=
  let blockSize := rtAlign blockSize alignSize
  let stride := add32 blockSize ptrSize
  let size := stride * blockCount % wordSize
  -- `rt_object_allocate`
  (rtMalloc h mempoolSize).bind fun (h, mp) =>
    if mp = 0 then some (h, none)
    else (rtMalloc h size).bind fun (h, start) =>
      -- `rt_object_delete` gives the control block back
      if start = 0 then (rtFree h mp).map fun h => (h, none)
      else some ({ h with mem := formatBlocks h.mem start stride blockCount },
        some (mp, newPool start size blockSize blockCount))

/-! ## The blocks of a pool -/

def pointer (v : Nat) : Option Nat := if v = 0 then none else some v

def link (m : Mem) (a : Nat) : Option Nat := pointer (m.load a ptrSize)

def Pool.stride (p : Pool) : Nat := add32 p.blockSize ptrSize

/-- The address of the header of block `i`. -/
def Pool.addr (p : Pool) (i : Nat) : Nat := blockAddr p.startAddress p.stride i

def Pool.blocks (p : Pool) : List Nat := (List.range p.blockTotalCount).map p.addr

/-- The blocks of the pool `p` at the address `mp`; `free` is the free list, and `live` are the
pointers that the application holds. -/
structure Blocks (p : Pool) (mp : Nat) (m : Mem) (live free : List Nat) : Prop where
  chain : Chain (link m) (pointer p.blockList) free
  count : p.blockFreeCount = free.length
  blocks : (free ++ live.map fun b => sub32 b ptrSize).Perm p.blocks
  /-- No byte belongs to two blocks. -/
  disjoint : ∀ i j, i < p.blockTotalCount → j < p.blockTotalCount → i ≠ j →
    ∀ k l, k < p.stride → l < p.stride → (p.addr i + k) % wordSize ≠ (p.addr j + l) % wordSize
  owner : ∀ b ∈ live, m.load (sub32 b ptrSize) ptrSize = mp

def Conserved (s : State T) : Prop := ∃ free, Blocks s.pool s.self s.mem s.live free

def Admissible (s : State T) : Action T → Prop
  | .free block => block ∈ s.live
  | .store x _ => (x < s.self ∨ s.self + mempoolSize ≤ x) ∧
      ∀ a ∈ s.pool.blocks, x < a ∨ a + ptrSize ≤ x
  | _ => True

instance (s : State T) (a : Action T) : Decidable (Admissible s a) := by
  cases a <;> unfold Admissible <;> infer_instance

/-! ## Their addresses -/

structure Layout (p : Pool) : Prop where
  start : 0 < p.startAddress
  word : ptrSize ≤ p.stride
  room : p.startAddress + p.blockTotalCount * p.stride ≤ wordSize

namespace Layout

variable {p : Pool} (h : Layout p) {i j : Nat}

include h

lemma recount (n : Nat) : Layout { p with suspendThreadCount := n } := ⟨h.start, h.word, h.room⟩

lemma relist (count list : Nat) :
    Layout { p with blockFreeCount := count, blockList := list } := ⟨h.start, h.word, h.room⟩

lemma end_le (hij : i < j) (hj : j ≤ p.blockTotalCount) :
    p.startAddress + i * p.stride + p.stride ≤ p.startAddress + j * p.stride ∧
      p.startAddress + j * p.stride ≤ wordSize := by
  have h1 : (i + 1) * p.stride ≤ j * p.stride := Nat.mul_le_mul_right _ hij
  have h2 : j * p.stride ≤ p.blockTotalCount * p.stride := Nat.mul_le_mul_right _ hj
  have h3 := h.room
  rw [Nat.succ_mul] at h1
  omega

lemma addr_eq {i : Nat} (hi : i < p.blockTotalCount) :
    p.addr i = p.startAddress + i * p.stride := by
  have h1 := h.end_le hi (le_rfl)
  have h2 := h.word
  unfold ptrSize at h2
  exact Nat.mod_eq_of_lt (by omega)

lemma addr_sep (hi : i < p.blockTotalCount) (hj : j < p.blockTotalCount)
    (hij : i ≠ j) : p.addr i + p.stride ≤ p.addr j ∨ p.addr j + p.stride ≤ p.addr i := by
  rw [h.addr_eq hi, h.addr_eq hj]
  rcases Nat.lt_or_gt_of_ne hij with hlt | hlt
  · exact .inl (h.end_le hlt hj.le).1
  exact .inr (h.end_le hlt hi.le).1

lemma disjoint (i j : Nat) (hi : i < p.blockTotalCount) (hj : j < p.blockTotalCount)
    (hij : i ≠ j) (k l : Nat) (hk : k < p.stride) (hl : l < p.stride) :
    (p.addr i + k) % wordSize ≠ (p.addr j + l) % wordSize := by
  have hsep := h.addr_sep hi hj hij
  have h1 := h.end_le hi (le_rfl)
  have h2 := h.end_le hj (le_rfl)
  rw [h.addr_eq hi, h.addr_eq hj] at hsep ⊢
  rw [Nat.mod_eq_of_lt (by omega), Nat.mod_eq_of_lt (by omega)]
  omega

lemma mem_blocks {a : Nat} (ha : a ∈ p.blocks) :
    ∃ i < p.blockTotalCount, p.addr i = a ∧ 0 < a ∧ a + ptrSize ≤ wordSize := by
  obtain ⟨i, hi, rfl⟩ := List.mem_map.mp ha
  have hi := mem_range.mp hi
  have h1 := h.end_le hi (le_rfl)
  have h2 := h.word
  have h3 := h.start
  refine ⟨i, hi, rfl, ?_⟩
  rw [h.addr_eq hi]
  omega

lemma nodup_blocks : p.blocks.Nodup := by
  refine List.Nodup.map_on (fun i hi j hj he => ?_) nodup_range
  by_contra hij
  have hsep := h.addr_sep (mem_range.mp hi) (mem_range.mp hj) hij
  have hw := h.word
  unfold ptrSize at hw
  omega

lemma words_sep {a b : Nat} (ha : a ∈ p.blocks) (hb : b ∈ p.blocks) (hne : a ≠ b) :
    a + ptrSize ≤ b ∨ b + ptrSize ≤ a := by
  obtain ⟨i, hi, rfl, -⟩ := h.mem_blocks ha
  obtain ⟨j, hj, rfl, -⟩ := h.mem_blocks hb
  have hsep := h.addr_sep hi hj fun hij => hne (by rw [hij])
  have hw := h.word
  omega

end Layout

lemma addr_lt (p : Pool) (i : Nat) : p.addr i < wordSize := Nat.mod_lt _ (by decide)

lemma addr_mem {i : Nat} (hi : i < p.blockTotalCount) : p.addr i ∈ p.blocks :=
  List.mem_map_of_mem (mem_range.mpr hi)

lemma load_store_word (m : Mem) (a : Nat) {v : Nat} (hv : v < wordSize) :
    (m.store a ptrSize v).load a ptrSize = v := by
  have hsize : 256 ^ ptrSize = wordSize := by norm_num [ptrSize, wordSize]
  rw [Mem.load_store, hsize, Nat.mod_eq_of_lt hv]

lemma pointer_of_pos {v : Nat} (hv : 0 < v) : pointer v = some v := if_neg (by omega)

/-! ## Pointers in the blocks -/

section

variable {p : Pool} (h : Layout p)

include h

lemma Layout.load_store_ne {a b : Nat} (ha : a ∈ p.blocks) (hb : b ∈ p.blocks) (hne : b ≠ a)
    (m : Mem) (v : Nat) : (m.store a ptrSize v).load b ptrSize = m.load b ptrSize :=
  Mem.load_store_of_disjoint m v (h.words_sep hb ha hne)

lemma Layout.addr_ne {i j : Nat} (hi : i < p.blockTotalCount) (hj : j < p.blockTotalCount)
    (hij : i ≠ j) : p.addr i ≠ p.addr j := by
  have hsep := h.addr_sep hi hj hij
  have hw := h.word
  unfold ptrSize at hw
  omega

lemma load_linkBlocks (m : Mem) {n i : Nat} (hn : n ≤ p.blockTotalCount) (hi : i < n) :
    (linkBlocks m p.startAddress p.stride n).load (p.addr i) ptrSize = p.addr (i + 1) := by
  induction n with
  | zero => exact absurd hi (by omega)
  | succ n ih =>
    show ((linkBlocks m p.startAddress p.stride n).store (p.addr n) ptrSize
      (p.addr (n + 1))).load (p.addr i) ptrSize = _
    by_cases hin : i = n
    · subst hin
      exact load_store_word _ _ (addr_lt p _)
    rw [h.load_store_ne (addr_mem hn) (addr_mem (by omega))
      (h.addr_ne (by omega) hn hin)]
    exact ih (by omega) (by omega)

lemma load_formatBlocks (m : Mem) {i : Nat} (hi : i < p.blockTotalCount) :
    (formatBlocks m p.startAddress p.stride p.blockTotalCount).load (p.addr i) ptrSize =
      if i + 1 = p.blockTotalCount then 0 else p.addr (i + 1) := by
  show ((linkBlocks m p.startAddress p.stride p.blockTotalCount).store
    (p.addr (p.blockTotalCount - 1)) ptrSize 0).load (p.addr i) ptrSize = _
  split
  · rename_i hlast
    rw [show p.blockTotalCount - 1 = i by omega]
    exact load_store_word _ _ (by decide)
  rw [h.load_store_ne (addr_mem (by omega)) (addr_mem hi)
    (h.addr_ne hi (by omega) (by omega))]
  exact load_linkBlocks h m (le_rfl) hi

lemma blocks_format (m : Mem) (mp : Nat) (hpos : 0 < p.blockTotalCount)
    (hlist : p.blockList = p.startAddress) (hcount : p.blockFreeCount = p.blockTotalCount) :
    Blocks p mp (formatBlocks m p.startAddress p.stride p.blockTotalCount) [] p.blocks := by
  have hload : ∀ i < p.blockTotalCount, _ := fun i hi => load_formatBlocks h m hi
  refine ⟨?_, ?_, ?_, h.disjoint, by simp⟩
  · obtain ⟨k, hk⟩ := Nat.exists_eq_add_one_of_ne_zero hpos.ne'
    have hfirst : pointer p.blockList = some (p.addr 0) := by
      rw [hlist, h.addr_eq hpos, zero_mul, add_zero]
      exact pointer_of_pos h.start
    rw [hfirst, Pool.blocks, range_eq_range']
    nth_rewrite 2 [hk]
    refine Chain.range' (n := p.blockTotalCount) (fun i hi => ?_) (fun i hi => ?_) k 0 (by omega)
    · rw [link, hload i (by omega), if_neg (by omega)]
      obtain ⟨-, -, -, hne, -⟩ := h.mem_blocks (addr_mem hi)
      exact pointer_of_pos hne
    rw [link, hload i (by omega), if_pos hi]
    rfl
  · rw [hcount, Pool.blocks, length_map, length_range]
  rw [map_nil, append_nil]

end

/-! ## Taking and putting back -/

section

variable {p : Pool} {mp : Nat} {m m' : Mem} {live free : List Nat}

variable (h : Blocks p mp m live free)

include h

lemma Blocks.mem_of_free {a : Nat} (ha : a ∈ free) :
    a ∈ p.blocks := h.blocks.mem_iff.mp (by simp [ha])

lemma Blocks.mem_of_live {b : Nat} (hb : b ∈ live) : sub32 b ptrSize ∈ p.blocks :=
  h.blocks.mem_iff.mp (mem_append_right _ (List.mem_map_of_mem hb))

lemma Blocks.nodup (hl : Layout p) : (free ++ live.map fun b => sub32 b ptrSize).Nodup :=
  h.blocks.nodup_iff.mpr hl.nodup_blocks

lemma Blocks.blockList_lt (hl : Layout p) : p.blockList < wordSize := by
  by_cases hz : p.blockList = 0
  · rw [hz]
    decide
  have hhead := h.chain.head_eq
  rw [pointer_of_pos (by omega)] at hhead
  obtain ⟨-, -, -, -, hend⟩ := hl.mem_blocks (h.mem_of_free (mem_of_head? hhead.symm))
  unfold ptrSize at hend
  omega

lemma Blocks.recount (n : Nat) : Blocks { p with suspendThreadCount := n } mp m live free :=
  ⟨h.chain, h.count, h.blocks, h.disjoint, h.owner⟩

lemma Blocks.relist {count list : Nat} {live' free' : List Nat}
    (hc : Chain (link m') (pointer list) free') (hn : count = free'.length)
    (hb : (free' ++ live'.map fun b => sub32 b ptrSize).Perm p.blocks)
    (ho : ∀ b ∈ live', m'.load (sub32 b ptrSize) ptrSize = mp) :
    Blocks { p with blockFreeCount := count, blockList := list } mp m' live' free' :=
  ⟨hc, hn, hb, h.disjoint, ho⟩

lemma Blocks.congr (hm : ∀ a ∈ p.blocks, m'.load a ptrSize = m.load a ptrSize) :
    Blocks p mp m' live free := by
  refine ⟨h.chain.congr fun a ha => ?_, h.count, h.blocks, h.disjoint, fun b hb => ?_⟩
  · rw [link, link, hm a (h.mem_of_free ha)]
  rw [hm _ (h.mem_of_live hb)]
  exact h.owner b hb

lemma Blocks.take (hl : Layout p) (hmp : mp < wordSize) (hlist : p.blockList ≠ 0) : ∃ rest, Blocks
      { p with
        blockFreeCount := p.blockFreeCount - 1
        blockList := m.load p.blockList ptrSize }
      mp (m.store p.blockList ptrSize mp) (add32 p.blockList ptrSize :: live) rest := by
  have hc := h.chain
  rw [pointer_of_pos (by omega)] at hc
  obtain ⟨rest, rfl, hrest⟩ := hc.of_some
  have ha := h.mem_of_free mem_cons_self
  have hnd := nodup_cons.mp (h.nodup hl)
  have hsub : sub32 (add32 p.blockList ptrSize) ptrSize = p.blockList := by
    obtain ⟨-, -, -, -, hend⟩ := hl.mem_blocks ha
    unfold add32 sub32 ptrSize wordSize at *
    omega
  refine ⟨rest, h.relist ?_ ?_ ?_ fun b hb => ?_⟩
  · refine hrest.congr fun b hb => ?_
    have hne : b ≠ p.blockList := fun he => hnd.1 (by rw [← he]; simp [hb])
    rw [link, link, hl.load_store_ne ha (h.mem_of_free (mem_cons_of_mem _ hb)) hne]
  · rw [h.count, length_cons, Nat.add_sub_cancel]
  · rw [map_cons, hsub]
    exact perm_middle.trans h.blocks
  rcases mem_cons.mp hb with rfl | hb
  · rw [hsub]
    exact load_store_word _ _ hmp
  have hne : sub32 b ptrSize ≠ p.blockList :=
    fun he => hnd.1 (mem_append_right _ (he ▸ List.mem_map_of_mem hb))
  rw [hl.load_store_ne ha (h.mem_of_live hb) hne]
  exact h.owner b hb

lemma Blocks.put (hl : Layout p) {block : Nat} (hb : block ∈ live) : Blocks
      { p with
        blockFreeCount := add32 p.blockFreeCount 1
        blockList := sub32 block ptrSize }
      mp (m.store (sub32 block ptrSize) ptrSize p.blockList) (live.erase block)
      (sub32 block ptrSize :: free) := by
  have ha := h.mem_of_live hb
  obtain ⟨-, -, -, hpos, -⟩ := hl.mem_blocks ha
  have hperm : (sub32 block ptrSize :: (free ++ (live.erase block).map fun b =>
      sub32 b ptrSize)).Perm (free ++ live.map fun b => sub32 b ptrSize) :=
    perm_middle.symm.trans
      (((perm_cons_erase hb).map fun b => sub32 b ptrSize).symm.append_left free)
  have hnd := nodup_cons.mp (hperm.nodup_iff.mpr (h.nodup hl))
  have hne : ∀ {b}, b ∈ free ∨ (∃ c ∈ live.erase block, sub32 c ptrSize = b) →
      b ≠ sub32 block ptrSize := by
    rintro b hmem rfl
    rcases hmem with hmem | ⟨c, hc, he⟩
    · exact hnd.1 (mem_append_left _ hmem)
    exact hnd.1 (mem_append_right _ (he ▸ List.mem_map_of_mem hc))
  refine h.relist ?_ ?_ (hperm.trans h.blocks) fun b hb => ?_
  · rw [pointer_of_pos hpos]
    refine h.chain.push ?_ fun b hmem => ?_
    · rw [link, load_store_word _ _ (h.blockList_lt hl)]
    rw [link, link, hl.load_store_ne ha (h.mem_of_free hmem) (hne (.inl hmem))]
  · have hlen := hperm.length_eq.trans h.blocks.length_eq
    have hroom := hl.room
    have hword := hl.word
    have htotal : p.blockTotalCount * 4 ≤ p.blockTotalCount * p.stride :=
      Nat.mul_le_mul_left _ hword
    rw [Pool.blocks, length_map, length_range, length_cons, length_append] at hlen
    rw [h.count, length_cons]
    exact add32_of_lt (by omega)
  have hmem := mem_of_mem_erase hb
  rw [hl.load_store_ne ha (h.mem_of_live hmem) (hne (.inr ⟨b, hb, rfl⟩))]
  exact h.owner b hmem

end

/-! ## Runs -/

structure Sound (s : State T) : Prop where
  layout : Layout s.pool
  address : s.self < wordSize
  conserved : Conserved s

section

variable {s s' : State T}

lemma Sound.recount (h : Sound s) {n : Nat} (hp : s'.pool = { s.pool with suspendThreadCount := n })
    (hself : s'.self = s.self) (hm : s'.mem = s.mem) (hl : s'.live = s.live) : Sound s' := by
  obtain ⟨free, hb⟩ := h.conserved
  refine ⟨?_, hself ▸ h.address, free, ?_⟩
  · rw [hp]
    exact h.layout.recount n
  rw [hp, hself, hm, hl]
  exact hb.recount n

lemma Sound.putBlock (h : Sound s) {block : Nat} (hb : block ∈ s.live) :
    Sound (putBlock s (sub32 block ptrSize) block) := by
  obtain ⟨free, hblocks⟩ := h.conserved
  have hput := hblocks.put h.layout hb
  refine ⟨?_, ?_, sub32 block ptrSize :: free, ?_⟩
  · exact h.layout.relist _ _
  · rw [putBlock_self]
    exact h.address
  rw [putBlock_pool, putBlock_self, putBlock_mem, putBlock_live]
  exact hput

lemma Sound.takeBlock (h : Sound s) (ht : takeBlock s = some s') : Sound s' := by
  unfold Mempools.takeBlock at ht
  split at ht
  · simp at ht
  rename_i hlist
  cases ht
  obtain ⟨free, hblocks⟩ := h.conserved
  obtain ⟨rest, hrest⟩ := hblocks.take h.layout h.address hlist
  exact ⟨h.layout.relist _ _, h.address, rest, hrest⟩

variable [DecidableEq T] {a : Action T}

lemma sound_move (h : Sound s) (ha : Admissible s a) (hm : Move s a s') : Sound s' := by
  cases hm with
  | code call tick hc | refuse hl hz
  | wait hs hl hz hk | back hs hf
  | abort hl hq => exact h.recount rfl rfl rfl rfl
  | take call hn ht hc => exact (h.takeBlock ht).recount rfl rfl rfl rfl
  | put he hb hz =>
    subst he
    exact h.putBlock ha
  | hand he hb hz hq =>
    subst he
    exact (h.putBlock ha).recount rfl rfl rfl rfl
  | @store x v he =>
    subst he
    obtain ⟨free, hblocks⟩ := h.conserved
    refine ⟨h.layout, h.address, free, hblocks.congr fun b hb => ?_⟩
    exact Mem.load_store_of_disjoint _ _ ((ha.2 b hb).symm.imp id id)

lemma sound_step (h : Sound s) (ha : Admissible s a) (hstep : step s a = some s') : Sound s' := by
  rcases move_of_step hstep with ⟨hm, -⟩ | ⟨t, -, hl, k, hk, rfl⟩
  · exact sound_move h ha hm
  exact h.recount rfl rfl rfl rfl

lemma conserved_of_run {s0 s t : State T} {as : List (Action T)} (h : Sound s0)
    (hadm : Meets step Admissible s0 as) (hexec : exec step s0 as = some s)
    (ht : Reached step s0 as t) : Conserved t := by
  have hiff := always_iff_meets (I := fun _ => True) (P := Sound) (C := Admissible)
    (D := Admissible) (fun _ _ _ _ _ _ => trivial)
    (fun u b u' _ hb hu hstep => ⟨fun _ => hb, fun _ => sound_step hu hb hstep⟩)
    trivial h hadm hexec
  exact (hiff.mpr hadm t ht).conserved

end

/-! ## Pools on the heap -/

/-- A heap as its calls leave it, on an arena in which there is room for a block. -/
def HeapReached (h : SmallMem.State) : Prop :=
  ∃ m beginAddr endAddr h₀ ops, endAddr < wordSize ∧
    rtSystemHeapInit m beginAddr endAddr = some h₀ ∧ 12 ≤ h₀.memSizeAligned ∧
    Meets SmallMem.step (fun s op => SmallMem.Admissible s op ∧ CallocFits op) ⟨h₀, []⟩ ops ∧
    exec SmallMem.step ⟨h₀, []⟩ ops = some h

lemma HeapReached.ok {h : SmallMem.State} (hr : HeapReached h) : Ok h := by
  obtain ⟨m, beginAddr, endAddr, h0, ops, hlt, hinit, hM, hops, hexec⟩ := hr
  refine inv_of_meets (fun s op s' hs hop hstep => ?_) (rtSystemHeapInit_ok hlt hinit hM)
    hops hexec
  obtain ⟨t, ht, hok⟩ := step_ok hs hop.1 hop.2
  obtain rfl := Option.some.inj (ht.symm.trans hstep)
  exact hok

lemma stride_mod_four (blockSize : Nat) : add32 (rtAlign blockSize alignSize) ptrSize % 4 = 0 := by
  have h4 := rtAlign_mod blockSize
  unfold add32 ptrSize wordSize
  omega

lemma sound_new {start size total : Nat}
    (hp : s.pool = newPool start size (rtAlign blockSize alignSize) total)
    (hm : s.mem = formatBlocks m start (add32 (rtAlign blockSize alignSize) ptrSize) total)
    (hlive : s.live = []) (hself : s.self < wordSize) (hstart : 0 < start) (htotal : 0 < total)
    (hstride : add32 (rtAlign blockSize alignSize) ptrSize ≠ 0)
    (hroom : start + total * add32 (rtAlign blockSize alignSize) ptrSize ≤ wordSize) : Sound s := by
  have hmod := stride_mod_four blockSize
  have hl : Layout s.pool := by
    rw [hp]
    refine ⟨hstart, ?_, hroom⟩
    show 4 ≤ add32 (rtAlign blockSize alignSize) ptrSize
    omega
  refine ⟨hl, hself, s.pool.blocks, ?_⟩
  rw [hlive, hm]
  have hb := blocks_format hl m s.self (by rw [hp]; exact htotal) (by rw [hp]; rfl)
    (by rw [hp]; rfl)
  rw [hp] at hb ⊢
  exact hb

lemma sound_init {start size : Nat}
    (hinit : rtMpInit m start size blockSize = some (s.pool, s.mem)) (hlive : s.live = [])
    (hself : s.self < wordSize) (hstart : start ≠ 0) (hend : start + size ≤ wordSize) :
    Sound s := by
  unfold rtMpInit at hinit
  simp only at hinit
  split at hinit
  · simp at hinit
  rename_i hne
  obtain ⟨hstride, hcount⟩ := not_or.mp hne
  obtain ⟨hp, hm⟩ := Prod.mk.inj (Option.some.inj hinit)
  refine sound_new hp.symm hm.symm hlive hself (by omega) (pos_of_ne_zero hcount) hstride ?_
  have hdiv := Nat.div_mul_le_self (rtAlignDown size alignSize)
    (add32 (rtAlign blockSize alignSize) ptrSize)
  have hdown : rtAlignDown size alignSize ≤ size := Nat.sub_le _ _
  omega

lemma inv_of_rtMalloc {h g : Heap} {bs : List SmallMem.Blk} (i : SmallMem.Inv h bs) {n q : Nat}
    (hm : rtMalloc h n = some (g, q)) (hq : q ≠ 0) : ∃ bs', SmallMem.Inv g bs' := by
  rcases rtMalloc_spec i n with ⟨hm', -⟩ | ⟨g', bs', o, z, hm', i', -⟩
  · cases hm'.symm.trans hm
    exact absurd rfl hq
  cases hm'.symm.trans hm
  exact ⟨bs', i'⟩

/-- Memory for a multiple of four bytes is below the end of the address space. -/
lemma rtMalloc_below {h g : Heap} {bs : List SmallMem.Blk} (i : SmallMem.Inv h bs) {n q : Nat}
    (hm : rtMalloc h n = some (g, q)) (hq : q ≠ 0) (hn : n % 4 = 0) (hlt : n < wordSize) :
    q + n ≤ wordSize := by
  rcases rtMalloc_spec i n with ⟨hm', -⟩ | ⟨g', bs', o, z, hm', i', hsame, hperm, hz, -⟩
  · cases hm'.symm.trans hm
    exact absurd rfl hq
  cases hm'.symm.trans hm
  have hb := i'.used_bounds (o := o) (s := z) (hperm.mem_iff.mpr (by simp))
  have hle : n ≤ rtAlign n alignSize := le_rtAlign (by unfold wordSize at *; omega)
  have hroom := i'.arena.room
  have hend := i'.arena.heapEnd
  have hptr := hsame.heapPtr
  omega

/-- The two calls of `rt_malloc` behind a pool that was created. -/
lemma rtMpCreate_eq_some {h h' : Heap} {count mp : Nat}
    (hc : rtMpCreate h count blockSize = some (h', some (mp, p))) :
    let stride := add32 (rtAlign blockSize alignSize) ptrSize
    let size := stride * count % wordSize
    ∃ g g' start, rtMalloc h mempoolSize = some (g, mp) ∧ mp ≠ 0 ∧
      rtMalloc g size = some (g', start) ∧ start ≠ 0 ∧
      h'.mem = formatBlocks g'.mem start stride count ∧
      p = newPool start size (rtAlign blockSize alignSize) count := by
  unfold rtMpCreate at hc
  obtain ⟨⟨g, a⟩, hg, hc⟩ := Option.bind_eq_some_iff.mp hc
  simp only at hc
  split at hc
  · cases hc
  rename_i hmp
  obtain ⟨⟨g', start⟩, hg', hc⟩ := Option.bind_eq_some_iff.mp hc
  simp only at hc
  split at hc
  · obtain ⟨_, -, hnone⟩ := Option.map_eq_some_iff.mp hc
    exact absurd (Prod.mk.inj hnone).2 (by simp)
  rename_i hstart
  cases hc
  exact ⟨g, g', start, hg, hmp, hg', hstart, rfl, rfl⟩

lemma rtMpCreate_spec {h : SmallMem.State} (hr : HeapReached h) {count mp : Nat}
    {h' : Heap} (hc : rtMpCreate h.heap count blockSize = some (h', some (mp, p))) :
    ∃ m start, p = newPool start (add32 (rtAlign blockSize alignSize) ptrSize * count % wordSize)
        (rtAlign blockSize alignSize) count ∧
      h'.mem = formatBlocks m start (add32 (rtAlign blockSize alignSize) ptrSize) count ∧
      0 < start ∧ add32 (rtAlign blockSize alignSize) ptrSize * count % wordSize ≠ 0 ∧
      start + add32 (rtAlign blockSize alignSize) ptrSize * count % wordSize ≤ wordSize := by
  obtain ⟨bs, i, -⟩ := hr.ok
  obtain ⟨g, g', start, hg, hmp, hg', hstart, hmem, hp⟩ := rtMpCreate_eq_some hc
  -- the heap is in order behind the control block
  obtain ⟨bs', i'⟩ := inv_of_rtMalloc i hg hmp
  refine ⟨g'.mem, start, hp, hmem, by omega, fun hz => ?_, ?_⟩
  · rw [hz, rtMalloc, if_pos rfl] at hg'
    exact hstart (Prod.mk.inj (Option.some.inj hg')).2.symm
  refine rtMalloc_below i' hg' hstart ?_ (Nat.mod_lt _ (by decide))
  rw [Nat.mod_mod_of_dvd _ (by decide), Nat.mul_mod, stride_mod_four blockSize]
  simp

lemma not_disjoint {live free : List Nat} {mp : Nat} (h : Blocks p mp m live free)
    (hne : p.stride ≠ 0) (hbig : wordSize < p.stride * p.blockTotalCount) : False := by
  have hlt : p.stride < wordSize := by
    unfold Pool.stride add32
    exact Nat.mod_lt _ (by decide)
  -- the block in which the address space has been gone through once
  have hq := Nat.div_add_mod wordSize p.stride
  have hr := Nat.mod_lt wordSize (pos_of_ne_zero hne)
  have hpos : 0 < wordSize / p.stride := Nat.div_pos hlt.le (by omega)
  have hcount : wordSize / p.stride < p.blockTotalCount :=
    Nat.lt_of_mul_lt_mul_left (a := p.stride) (by omega)
  refine h.disjoint (wordSize / p.stride) 0 hcount (by omega) (by omega) (wordSize % p.stride) 0
    hr (by omega) ?_
  simp only [Pool.addr, blockAddr, zero_mul, add_zero, Nat.mod_add_mod, Nat.mod_mod]
  rw [add_assoc, mul_comm, hq, Nat.add_mod_right]

/-- **The blocks of a pool.** In every run in which the application frees what it holds and nobody
writes to a header or to the control block: on a pool that `rt_mp_init` has made of memory inside
the address space, every state accounts for the blocks; on a pool that `rt_mp_create` has made it
does if and only if the size of the pool is less than `2 ^ 32`. -/
theorem blocksConserved_iff [DecidableEq T] {s₀ s : State T} {as : List (Action T)}
    (hs : Start s₀) (hself : s₀.self < wordSize) (hadm : Meets step Admissible s₀ as)
    (hexec : exec step s₀ as = some s) :
    (∀ m start size blockSize, start ≠ 0 → start + size ≤ wordSize →
        rtMpInit m start size blockSize = some (s₀.pool, s₀.mem) →
        ∀ t, Reached step s₀ as t → Conserved t) ∧
      ∀ h h' count blockSize, HeapReached h →
        rtMpCreate h.heap count blockSize = some (h', some (s₀.self, s₀.pool)) → h'.mem = s₀.mem →
        ((∀ t, Reached step s₀ as t → Conserved t) ↔
          add32 (rtAlign blockSize alignSize) ptrSize * count < wordSize) := by
  constructor
  · intro m start size blockSize hstart hend hinit t ht
    exact conserved_of_run (sound_init hinit hs.live hself hstart hend) hadm hexec ht
  intro h h' count blockSize hr hc hmem
  obtain ⟨m, start, hp, hm, hstart, hne, hroom⟩ := rtMpCreate_spec hr hc
  have hstride : add32 (rtAlign blockSize alignSize) ptrSize ≠ 0 := by
    intro hz
    rw [hz, zero_mul, Nat.zero_mod] at hne
    exact hne rfl
  constructor
  · intro hall
    obtain ⟨free, hb⟩ := hall s₀ ⟨[], nil_prefix, rfl⟩
    by_contra hbig
    rw [hp] at hb
    have hgt : wordSize < add32 (rtAlign blockSize alignSize) ptrSize * count := by
      refine lt_of_le_of_ne (not_lt.mp hbig) fun he => hne ?_
      rw [← he]
      exact Nat.mod_self _
    exact not_disjoint hb hstride hgt
  intro hlt t ht
  rw [Nat.mod_eq_of_lt hlt] at hroom hne
  have hcount : count ≠ 0 := by
    rintro rfl
    exact hne (Nat.mul_zero _)
  exact conserved_of_run (sound_new hp (hmem ▸ hm) hs.live hself hstart (by omega) hstride
    (by rw [mul_comm count]; exact hroom)) hadm hexec ht

def newState (mp : Nat) (p : Pool) (m : Mem) : State (Fin 2) where
  kernel := Kernel.ready ![20, 10]
  pool := p
  self := mp
  mem := m
  tick := 0
  call := fun _ => none
  live := []

lemma start_newState (mp : Nat) (m : Mem) (hp : p.suspendThreadCount = 0) :
    Start (newState mp p m) := ⟨hp, rfl, fun _ => rfl, fun _ => rfl, rfl⟩

def takeTwo : List (Action (Fin 2)) := [.alloc 0 0, .alloc 1 0, .free 4180, .store 4189 7]

theorem blocksConserved_iff_takeTwo :
    (∃ h h' p s, rtSystemHeapInit (fun _ => 0xff) 4096 4352 = some h ∧
      rtMpCreate h 2 4 = some (h', some (4108, p)) ∧
      exec step (newState 4108 p h'.mem) takeTwo = some s ∧ s.live = [4188] ∧
      ∀ t, Reached step (newState 4108 p h'.mem) takeTwo t → Conserved t) ∧
    ∀ t, Reached step oneBlock handOver t → Conserved t := by
  constructor
  · obtain ⟨h, hinit, hM, ⟨h', _⟩, hc, ⟨_, p⟩, rfl, rfl, hcount, hadm, s, hs, hlive⟩ : ∃ h,
        rtSystemHeapInit (fun _ => 0xff) 4096 4352 = some h ∧ 12 ≤ h.memSizeAligned ∧
        ∃ r, rtMpCreate h 2 4 = some r ∧ ∃ q, r.2 = some q ∧ q.1 = 4108 ∧
          q.2.suspendThreadCount = 0 ∧
          Meets step Admissible (newState 4108 q.2 r.1.mem) takeTwo ∧
          ∃ s, exec step (newState 4108 q.2 r.1.mem) takeTwo = some s ∧ s.live = [4188] := by
      decide +kernel
    have hr : HeapReached ⟨h, []⟩ := ⟨_, 4096, 4352, h, [], by decide, hinit, hM, trivial, rfl⟩
    have hself : (newState 4108 p h'.mem).self < wordSize := by
      show 4108 < wordSize
      decide
    exact ⟨h, h', p, s, hinit, hc, hs, hlive, ((blocksConserved_iff
      (start_newState _ _ hcount) hself hadm hs).2 ⟨h, []⟩ h' 2 4 hr hc rfl).mpr
        (by decide +kernel)⟩
  obtain ⟨s, hs⟩ : ∃ s, exec step oneBlock handOver = some s :=
    Option.isSome_iff_exists.mp (by decide +kernel)
  exact (blocksConserved_iff start_oneBlock (by decide) (by decide +kernel) hs).1 _ 8192 8 4
    (by decide) (by decide) rtMpInit_oneBlock

/-- Three blocks of `0x55555554` bytes: the product is 8, which the heap has, and the last byte of
the third block is one of the first block. -/
theorem create_overlaps :
    ∃ h h' p, rtSystemHeapInit (fun _ => 0xff) 4096 4352 = some h ∧ HeapReached ⟨h, []⟩ ∧
      rtMpCreate h 3 0x55555554 = some (h', some (4108, p)) ∧ p.blockTotalCount = 3 ∧ p.size = 8 ∧
      Start (newState 4108 p h'.mem) ∧ ¬ Conserved (newState 4108 p h'.mem) := by
  obtain ⟨h, hinit, hM, ⟨h', _⟩, hc, ⟨_, p⟩, rfl, rfl, hcount, htotal, hsize, hstride, hstart⟩ :
      ∃ h, rtSystemHeapInit (fun _ => 0xff) 4096 4352 = some h ∧ 12 ≤ h.memSizeAligned ∧
      ∃ r, rtMpCreate h 3 0x55555554 = some r ∧ ∃ q, r.2 = some q ∧ q.1 = 4108 ∧
        q.2.suspendThreadCount = 0 ∧ q.2.blockTotalCount = 3 ∧ q.2.size = 8 ∧
        q.2.stride = 0x55555558 ∧ q.2.startAddress = 4176 := by
    decide +kernel
  have hr : HeapReached ⟨h, []⟩ := ⟨_, 4096, 4352, h, [], by decide, hinit, hM, trivial, rfl⟩
  dsimp only at htotal hstride hstart
  refine ⟨h, h', p, hinit, hr, hc, htotal, hsize, start_newState _ _ hcount, ?_⟩
  rintro ⟨free, hb⟩
  refine hb.disjoint 2 0 (by show 2 < p.blockTotalCount; omega)
    (by show 0 < p.blockTotalCount; omega) (by omega) 0x55555550 0
    (by show _ < p.stride; omega) (by show _ < p.stride; omega) ?_
  show (blockAddr p.startAddress p.stride 2 + 0x55555550) % wordSize =
    (blockAddr p.startAddress p.stride 0 + 0) % wordSize
  rw [hstart, hstride]
  decide

end NbIot.Mempools
