import NbIot.Basic.Records
import NbIot.Heap.Mem

/-! # The memory heaps of `src/memheap.c`

A memheap is an arena of bytes that is divided into blocks, each with a `struct rt_memheap_item` of
six words in front of it. The items of all blocks form one circular list (`next`, `prev`) in the
order of their addresses; the items of the free blocks also form a ring (`next_free`,
`prev_free`) with the item `free_header` of the `struct rt_memheap` as its head.

* A pointer is an address, `0` being `RT_NULL`, and all items live in one memory; the other fields
  of the `struct rt_memheap` at an address are a `Memheap`.
* A `rt_uint32_t` and a `rt_size_t` are natural numbers whose arithmetic wraps at `2 ^ 32`.
* A call that does not return has the result `none`: a failed `RT_ASSERT`, or a walk along
  `next_free` that takes more steps than there are addresses.
* Calls are sequential: the `lock` is left out, as are the object container and the log output.
-/

namespace NbIot.Memheaps

open SmallMem (rtAlign rtAlignDown alignSize)

-- the fields of a `struct rt_memheap_item`, each a word
namespace Item

abbrev magic : Nat := 0
abbrev poolPtr : Nat := 1
abbrev next : Nat := 2
abbrev prev : Nat := 3
abbrev nextFree : Nat := 4
abbrev prevFree : Nat := 5

end Item

/-! ## Items -/

def memheapMagic : Nat := 0x1ea01ea0

/-- `RT_MEMHEAP_MASK`, which is also the complement of `RT_MEMHEAP_USED`. -/
def memheapMask : Nat := 0xfffffffe

def memheapUsed : Nat := 0x01

def minialloc : Nat := 12

/-- `RT_MEMHEAP_SIZE`: the size of an item, which is a multiple of `RT_ALIGN_SIZE`. -/
def memheapSize : Nat := 24

/-- The offset of `free_header` in a `struct rt_memheap`: behind the kernel object (a name of
`RT_NAME_MAX = 10` bytes, `type`, `flag` and a list node) and six words. -/
def freeHeaderOffset : Nat := 44

/-- `RT_MEMHEAP_IS_USED(i)`. -/
def isUsed (m : Mem) (i : Nat) : Prop := m.word i Item.magic &&& memheapUsed ≠ 0
  deriving Decidable

def hasMagic (m : Mem) (i : Nat) : Prop := m.word i Item.magic &&& memheapMask = memheapMagic
  deriving Decidable

def memitemSize (m : Mem) (item : Nat) : Nat :=
  sub32 (sub32 (m.word item Item.next) item) memheapSize

/-! ## Links between items -/

/-- All fields of an item, in the order in which `rt_memheap_init` writes them. -/
def setItem (m : Mem) (i magic poolPtr next prev nextFree prevFree : Nat) : Mem :=
  let m := m.setWord i Item.magic magic
  let m := m.setWord i Item.poolPtr poolPtr
  let m := m.setWord i Item.next next
  let m := m.setWord i Item.prev prev
  let m := m.setWord i Item.nextFree nextFree
  m.setWord i Item.prevFree prevFree

/-- "insert … to free list": `i` becomes the first of the free ring. -/
def insertFree (m : Mem) (freeList i : Nat) : Mem :=
  m.linkAfter freeList i Item.nextFree Item.prevFree

def removeFree (m : Mem) (i : Nat) : Mem := m.unlink i Item.nextFree Item.prevFree

/-- "remove … from free list" of a block that is allocated: its own links are cleared too. -/
def takeFree (m : Mem) (i : Nat) : Mem :=
  let m := removeFree m i
  let m := m.setWord i Item.nextFree 0
  m.setWord i Item.prevFree 0

/-- A free block at `newPtr`, in the block list behind `headerPtr`. -/
def newBlock (m : Mem) (heap headerPtr newPtr : Nat) : Mem :=
  -- mark the new block as a memory block and freed
  let m := m.setWord newPtr Item.magic memheapMagic
  let m := m.setWord newPtr Item.poolPtr heap
  -- break down the block list
  let m := m.setWord newPtr Item.prev headerPtr
  let m := m.setWord newPtr Item.next (m.word headerPtr Item.next)
  let m := m.setWord (m.word headerPtr Item.next) Item.prev newPtr
  m.setWord headerPtr Item.next newPtr

/-- "merge block with next neighbor": the block at `headerPtr` takes over the one at `newPtr`,
which follows it. -/
def absorb (m : Mem) (headerPtr newPtr : Nat) : Mem :=
  let m := m.setWord (m.word newPtr Item.next) Item.prev headerPtr
  m.setWord headerPtr Item.next (m.word newPtr Item.next)

/-! ## The heap object -/

/-- A `struct rt_memheap`, its kernel object, its lock and its `free_header` apart. -/
structure Memheap where
  startAddr : Nat
  poolSize : Nat
  availableSize : Nat
  maxUsedSize : Nat
  blockList : Nat
  freeList : Nat
  deriving DecidableEq

namespace Memheap

/-- `available_size` set to `n`. -/
def setAvailable (h : Memheap) (n : Nat) : Memheap := { h with availableSize := n }

@[simp] lemma setAvailable_availableSize (h : Memheap) (n : Nat) :
    (h.setAvailable n).availableSize = n := rfl
@[simp] lemma setAvailable_freeList (h : Memheap) (n : Nat) :
    (h.setAvailable n).freeList = h.freeList := rfl
@[simp] lemma setAvailable_setAvailable (h : Memheap) (n k : Nat) :
    (h.setAvailable n).setAvailable k = h.setAvailable k := rfl

/-- `max_used_size` raised to what is not available now. -/
def noteUsed (h : Memheap) : Memheap :=
  if h.maxUsedSize < sub32 h.poolSize h.availableSize then
    { h with maxUsedSize := sub32 h.poolSize h.availableSize }
  else h

end Memheap

/-- The memory, and the `struct rt_memheap` at every address that holds one. -/
structure Heaps where
  mem : Mem
  heap : Nat → Memheap

def Heaps.update (s : Heaps) (m : Mem) (heap : Nat) (h : Memheap) : Heaps :=
  { mem := m, heap := Function.update s.heap heap h }

/-- The items that `rt_memheap_init` writes: the free list header, the first block, which is linked
to `next`, and a used block there. -/
def initItems (m : Mem) (memheap freeList startAddr next : Nat) : Mem :=
  let m := setItem m freeList memheapMagic memheap 0 0 freeList freeList
  -- the first big memory block
  let m := setItem m startAddr memheapMagic memheap 0 0 startAddr startAddr
  let m := m.setWord startAddr Item.next next
  let m := m.setWord startAddr Item.prev (m.word startAddr Item.next)
  let m := insertFree m freeList startAddr
  -- a used block at the end of the pool, which prevents block merging
  setItem m (m.word startAddr Item.next) (memheapMagic ||| memheapUsed) memheap startAddr startAddr
    0 0

def rtMemheapInit (s : Heaps) (memheap startAddr size : Nat) : Heaps :=
  let poolSize := rtAlignDown size alignSize
  let availableSize := sub32 poolSize (2 * memheapSize)
  let maxUsedSize := sub32 poolSize availableSize
  let freeList := add32 memheap freeHeaderOffset
  let next := add32 (add32 startAddr availableSize) memheapSize
  s.update (initItems s.mem memheap freeList startAddr next) memheap
    { startAddr := startAddr, poolSize := poolSize, availableSize := availableSize,
      maxUsedSize := maxUsedSize, blockList := startAddr, freeList := freeList }

/-! ## `rt_memheap_alloc` -/

/-- The search on the free list: the `header_ptr` and the `free_size` at the end of the loop. -/
def searchFree (m : Mem) (freeList size : Nat) : Nat → Nat → Nat → Option (Nat × Nat)
  | 0, _, _ => none
  | fuel + 1, headerPtr, freeSize =>
    if headerPtr ≠ freeList ∧ freeSize < size then
      let freeSize := memitemSize m headerPtr
      if freeSize < size then
        searchFree m freeList size fuel (m.word headerPtr Item.nextFree) freeSize
      else searchFree m freeList size fuel headerPtr freeSize
    else some (headerPtr, freeSize)

/-- `size` rounded up, and at least `RT_MEMHEAP_MINIALLOC`. -/
def roundSize (size : Nat) : Nat :=
  if rtAlign size alignSize < minialloc then minialloc else rtAlign size alignSize

/-- A block that satisfies the request has been found: it is split, or taken whole, and marked as
used. -/
def takeBlock (s : Heaps) (heap headerPtr freeSize size : Nat) : Heaps :=
  let h := s.heap heap
  let s := if add32 (add32 size memheapSize) minialloc ≤ freeSize then
      let newPtr := add32 (add32 headerPtr size) memheapSize
      let m := newBlock s.mem heap headerPtr newPtr
      let m := takeFree m headerPtr
      let m := insertFree m h.freeList newPtr
      s.update m heap
        (h.setAvailable (sub32 (sub32 h.availableSize size) memheapSize)).noteUsed
    else
      s.update (takeFree s.mem headerPtr) heap
        (h.setAvailable (sub32 h.availableSize freeSize)).noteUsed
  { s with
    mem := s.mem.setWord headerPtr Item.magic (s.mem.word headerPtr Item.magic ||| memheapUsed) }

def rtMemheapAlloc (s : Heaps) (heap size : Nat) : Option (Heaps × Nat) :=
  let size := roundSize size
  let h := s.heap heap
  if size < h.availableSize then
    (searchFree s.mem h.freeList size (wordSize + 1) (s.mem.word h.freeList Item.nextFree) 0).map
      fun (headerPtr, freeSize) =>
        if size ≤ freeSize then
          (takeBlock s heap headerPtr freeSize size, add32 headerPtr memheapSize)
        else (s, 0)
  else some (s, 0)

/-! ## `rt_memheap_free` -/

/-- "merge block with previous neighbor" if that one is free. The result is the memory, the
heap, the header of the merged block, and whether that one still has to be inserted. -/
def mergePrev (m : Mem) (h : Memheap) (headerPtr : Nat) : Mem × Memheap × Nat × Bool :=
  if isUsed m (m.word headerPtr Item.prev) then (m, h, headerPtr, true)
  else
    let m := m.unlink headerPtr Item.prev Item.next
    (m, h.setAvailable (add32 h.availableSize memheapSize), m.word headerPtr Item.prev, false)

/-- "merge block with next neighbor" if that one is free. -/
def mergeNext (m : Mem) (h : Memheap) (headerPtr : Nat) : Mem × Memheap :=
  if isUsed m (m.word headerPtr Item.next) then (m, h)
  else
    let newPtr := m.word headerPtr Item.next
    (removeFree (absorb m headerPtr newPtr) newPtr,
      h.setAvailable (add32 h.availableSize memheapSize))

/-- The part of `rt_memheap_free` behind the assertions. -/
def release (s : Heaps) (heap headerPtr : Nat) : Heaps :=
  let m := s.mem.setWord headerPtr Item.magic (s.mem.word headerPtr Item.magic &&& memheapMask)
  let h := s.heap heap
  let h := h.setAvailable (add32 h.availableSize (memitemSize m headerPtr))
  let (m, h, headerPtr, insertHeader) := mergePrev m h headerPtr
  let (m, h) := mergeNext m h headerPtr
  let m := if insertHeader then insertFree m h.freeList headerPtr else m
  s.update m heap h

def rtMemheapFree (s : Heaps) (ptr : Nat) : Option Heaps :=
  if ptr = 0 then some s
  else
    let headerPtr := sub32 ptr memheapSize
    if hasMagic s.mem headerPtr ∧ isUsed s.mem headerPtr
        ∧ hasMagic s.mem (s.mem.word headerPtr Item.next) then
      some (release s (s.mem.word headerPtr Item.poolPtr) headerPtr)
    else none

/-! ## `rt_memheap_realloc` -/

/-- The free neighbour at `nextPtr` gives up its first bytes: its header is built anew at
`newNext`. -/
def moveNext (s : Heaps) (heap headerPtr nextPtr newNext taken : Nat) : Heaps :=
  let h := s.heap heap
  let h := (h.setAvailable (sub32 h.availableSize taken)).noteUsed
  -- remove `next_ptr` from the free list and from the block list
  let m := removeFree s.mem nextPtr
  let m := m.unlink nextPtr Item.next Item.prev
  -- build a new one on the right place
  let m := newBlock m heap headerPtr newNext
  let m := insertFree m h.freeList newNext
  s.update m heap h

/-- The block at `headerPtr` is cut at `newPtr`; what is cut off is merged with a free neighbour
and inserted. -/
def cutBlock (s : Heaps) (heap headerPtr newPtr : Nat) : Heaps :=
  let h := s.heap heap
  let m := newBlock s.mem heap headerPtr newPtr
  let freePtr := m.word newPtr Item.next
  let (m, h) := if isUsed m freePtr then (m, h)
    else
      (removeFree (absorb m newPtr freePtr) freePtr,
        h.setAvailable (sub32 h.availableSize (memitemSize m freePtr)))
  let m := insertFree m h.freeList newPtr
  s.update m heap (h.setAvailable (add32 h.availableSize (memitemSize m newPtr)))

/-- "re-allocate a memory block": the contents move to another block of the same heap. -/
def moveBlock (s : Heaps) (heap ptr oldsize newsize : Nat) : Option (Heaps × Nat) := do
  let (s, newPtr) ← rtMemheapAlloc s heap newsize
  if newPtr ≠ 0 then
    let m := s.mem.copy newPtr ptr (if oldsize < newsize then oldsize else newsize)
    let s ← rtMemheapFree { s with mem := m } ptr
    some (s, newPtr)
  else some (s, 0)

def rtMemheapRealloc (s : Heaps) (heap ptr newsize : Nat) : Option (Heaps × Nat) :=
  if newsize = 0 then (rtMemheapFree s ptr).map fun s => (s, 0)
  else
    let newsize := roundSize newsize
    if ptr = 0 then rtMemheapAlloc s heap newsize
    else
      let headerPtr := sub32 ptr memheapSize
      let oldsize := memitemSize s.mem headerPtr
      if oldsize < newsize then
        let nextPtr := s.mem.word headerPtr Item.next
        -- `header_ptr` should not be the tail
        if headerPtr < nextPtr then
          -- check whether the following free space is enough to expand
          if ¬ isUsed s.mem nextPtr ∧
              add32 newsize minialloc < add32 (memitemSize s.mem nextPtr) oldsize then
            some (moveNext s heap headerPtr nextPtr (add32 ptr newsize) (sub32 newsize oldsize),
              ptr)
          else moveBlock s heap ptr oldsize newsize
        else none
      -- don't split when there is less than one node space left
      else if oldsize ≤ add32 (add32 newsize memheapSize) minialloc then some (s, ptr)
      else
        some (cutBlock s heap headerPtr (add32 (add32 headerPtr newsize) memheapSize), ptr)

end NbIot.Memheaps
