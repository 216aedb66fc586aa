import NbIot.Basic.Memory

/-! # The small-memory heap of `src/mem.c`

The heap is an arena of bytes at `heap_ptr`, divided into blocks. Every block starts with a
`struct heap_mem` of twelve bytes (`magic`, `used`, `next`, `prev`); `next` and `prev` are
offsets from `heap_ptr`. The headers live in the same memory as the payloads.

* A `struct heap_mem *` is its offset from `heap_ptr`; a `void *` of the application is an address,
  `0` being `RT_NULL`.
* A `rt_size_t` is a natural number, and its arithmetic wraps at `2 ^ 32` (`add32`, `sub32`).
* A call that does not return has the result `none`: a failed `RT_ASSERT` ends in an endless loop,
  and a search that visits more than `2 ^ 32` offsets runs for ever.
* The calls are sequential: `heap_sem` is left out, as are the hooks and the log output.
-/

namespace NbIot.SmallMem

/-! ## The memory and its headers -/

/-- `RT_ALIGN(size, align)` for a power of two `align`, in 32-bit arithmetic. -/
def rtAlign (size align : Nat) : Nat :=
  add32 size (align - 1) - add32 size (align - 1) % align

/-- `RT_ALIGN_DOWN(size, align)` for a power of two `align`. -/
def rtAlignDown (size align : Nat) : Nat := size - size % align

def heapMagic : Nat := 0x1ea0

/-- `RT_ALIGN_SIZE` of `rtconfig.h`. -/
def alignSize : Nat := 4

/-- `MIN_SIZE`, which is already aligned (`MIN_SIZE_ALIGNED`). -/
def minSize : Nat := 12

/-- `SIZEOF_STRUCT_MEM`: two 16-bit and two 32-bit fields. -/
def sizeofMem : Nat := 12

/-- The static variables of `mem.c` and the memory they are about. -/
structure Heap where
  heapPtr : Nat
  heapEnd : Nat
  lfree : Nat
  memSizeAligned : Nat
  usedMem : Nat
  maxMem : Nat
  mem : Mem

namespace Heap

def magic (h : Heap) (o : Nat) : Nat := h.mem.load (h.heapPtr + o) 2
def used (h : Heap) (o : Nat) : Nat := h.mem.load (h.heapPtr + o + 2) 2
def next (h : Heap) (o : Nat) : Nat := h.mem.load (h.heapPtr + o + 4) 4
def prev (h : Heap) (o : Nat) : Nat := h.mem.load (h.heapPtr + o + 8) 4

/-- `v` written to the field of `n` bytes that stands `f` bytes into the header at `o`. -/
def write (h : Heap) (o f n v : Nat) : Heap :=
  { h with mem := h.mem.store (h.heapPtr + o + f) n v }

def setMagic (h : Heap) (o v : Nat) : Heap := h.write o 0 2 v
def setUsed (h : Heap) (o v : Nat) : Heap := h.write o 2 2 v
def setNext (h : Heap) (o v : Nat) : Heap := h.write o 4 4 v
def setPrev (h : Heap) (o v : Nat) : Heap := h.write o 8 4 v

section

variable (h : Heap) (o f n v : Nat)

@[simp] lemma write_heapPtr : (h.write o f n v).heapPtr = h.heapPtr := rfl
@[simp] lemma write_heapEnd : (h.write o f n v).heapEnd = h.heapEnd := rfl
@[simp] lemma write_lfree : (h.write o f n v).lfree = h.lfree := rfl
@[simp] lemma write_memSizeAligned : (h.write o f n v).memSizeAligned = h.memSizeAligned := rfl
@[simp] lemma write_usedMem : (h.write o f n v).usedMem = h.usedMem := rfl
@[simp] lemma write_mem : (h.write o f n v).mem = h.mem.store (h.heapPtr + o + f) n v := rfl

end

/-! ## Joining free blocks -/

/-- The `RT_MEM_STATS` bookkeeping of an allocation of `n` bytes. -/
def countUsed (h : Heap) (n : Nat) : Heap :=
  { h with
    usedMem := add32 h.usedMem n
    maxMem := if h.maxMem < add32 h.usedMem n then add32 h.usedMem n else h.maxMem }

end Heap

open Heap

/-- `a->next = b->next` and `heap_ptr[b->next].prev = a`: the block at `a` takes over its
successor at `b`. Both merges of `plug_holes` end in these two writes. -/
def joinBlocks (h : Heap) (a b : Nat) : Heap :=
  let h := h.setNext a (h.next b)
  h.setPrev (h.next b) a

/-- "plug hole forward": merge `mem` with its successor if that one is free. -/
def plugForward (h : Heap) (mem : Nat) : Heap :=
  let nmem := h.next mem
  if mem ≠ nmem ∧ h.used nmem = 0 ∧ nmem ≠ h.heapEnd then
    joinBlocks (if h.lfree = nmem then { h with lfree := mem } else h) mem nmem
  else h

/-- "plug hole backward": merge `mem` into its predecessor if that one is free. -/
def plugBackward (h : Heap) (mem : Nat) : Heap :=
  let pmem := h.prev mem
  if pmem ≠ mem ∧ h.used pmem = 0 then
    joinBlocks (if h.lfree = mem then { h with lfree := pmem } else h) pmem mem
  else h

/-- `plug_holes(mem)`; the assertion `mem >= heap_ptr` holds of every offset. -/
def plugHoles (h : Heap) (mem : Nat) : Option Heap :=
  if mem < h.heapEnd ∧ h.used mem = 0 then some (plugBackward (plugForward h mem) mem) else none

/-! ## The functions of `mem.c` -/

/-- `rt_system_heap_init(begin_addr, end_addr)`; `none` is the error path, which leaves the heap
uninitialised. The counters are static variables, zero at boot. -/
def rtSystemHeapInit (m : Mem) (beginAddr endAddr : Nat) : Option Heap :=
  let beginAlign := rtAlign beginAddr alignSize
  let endAlign := rtAlignDown endAddr alignSize
  if 2 * sizeofMem < endAlign ∧ beginAlign ≤ endAlign - 2 * sizeofMem then
    let memSizeAligned := endAlign - beginAlign - 2 * sizeofMem
    let e := memSizeAligned + sizeofMem
    let h : Heap :=
      { heapPtr := beginAlign, heapEnd := e, lfree := 0, memSizeAligned := memSizeAligned,
        usedMem := 0, maxMem := 0, mem := m }
    -- the start of the heap
    let h := (((h.setMagic 0 heapMagic).setNext 0 e).setPrev 0 0).setUsed 0 0
    -- the end of the heap
    some ((((h.setMagic e heapMagic).setUsed e 1).setNext e e).setPrev e e)
  else none

/-- The search loop of `rt_malloc` for a free block of at least `size` bytes, from the offset
`ptr` on. `some none` is the exit at the loop condition. -/
def searchFit (h : Heap) (size : Nat) : Nat → Nat → Option (Option Nat)
  | 0, _ => none
  | fuel + 1, ptr =>
    if ptr < sub32 h.memSizeAligned size then
      if h.used ptr = 0 ∧ size ≤ sub32 (h.next ptr) (add32 ptr sizeofMem) then
        some (some ptr)
      else searchFit h size fuel (h.next ptr)
    else some none

/-- The loop that moves `lfree` to the next free block, or to `heap_end`. -/
def nextFree (h : Heap) : Nat → Nat → Option Nat
  | 0, _ => none
  | fuel + 1, p =>
    if h.used p ≠ 0 ∧ p ≠ h.heapEnd then nextFree h fuel (h.next p) else some p

/-- Create the header of a new free block at `ptr2` and link it between `ptr` and its successor,
the back link of the successor excepted. -/
def insertHeader (h : Heap) (ptr ptr2 : Nat) : Heap :=
  -- create mem2 struct
  let h := (h.setMagic ptr2 heapMagic).setUsed ptr2 0
  let h := (h.setNext ptr2 (h.next ptr)).setPrev ptr2 ptr
  -- and insert it between mem and mem->next
  h.setNext ptr ptr2

/-- Split the block at `ptr`: what lies behind `ptr2` becomes a free block. The back link of the
successor is set unless that is `heap_end`. -/
def splitBlock (h : Heap) (ptr ptr2 : Nat) : Heap :=
  let h := insertHeader h ptr ptr2
  if h.next ptr2 ≠ add32 h.memSizeAligned sizeofMem then h.setPrev (h.next ptr2) ptr2 else h

/-- What `rt_malloc` does to the block it has found: split it when the remainder can hold a
block of its own, take it whole otherwise. -/
def takeBlock (h : Heap) (ptr size : Nat) : Heap :=
  if add32 (add32 size sizeofMem) minSize ≤ sub32 (h.next ptr) (add32 ptr sizeofMem) then
    let h := (splitBlock h ptr (add32 (add32 ptr sizeofMem) size)).setUsed ptr 1
    (h.countUsed (add32 size sizeofMem)).setMagic ptr heapMagic
  else
    let h := h.setUsed ptr 1
    (h.countUsed (sub32 (h.next ptr) ptr)).setMagic ptr heapMagic

/-- `rt_malloc(size)`: the heap after the call and the returned pointer. -/
def rtMalloc (h : Heap) (size : Nat) : Option (Heap × Nat) :=
  if size = 0 then some (h, 0)
  else
    let size := rtAlign size alignSize
    if h.memSizeAligned < size then some (h, 0)
    else
      -- every data block must be at least MIN_SIZE_ALIGNED long
      let size := if size < minSize then minSize else size
      match searchFit h size wordSize h.lfree with
      | none => none
      | some none => some (h, 0)
      | some (some ptr) =>
        let h := takeBlock h ptr size
        (if ptr = h.lfree then
          (nextFree h wordSize h.lfree).map fun p => { h with lfree := p }
        else some h).bind fun h =>
          if ptr + sizeofMem + size ≤ h.heapEnd ∧ (h.heapPtr + ptr) % alignSize = 0 then
            some (h, h.heapPtr + ptr + sizeofMem)
          else none

/-- The offset of the header of the block whose payload is at `rmem`. -/
def headerOf (h : Heap) (rmem : Nat) : Nat := sub32 (sub32 rmem sizeofMem) h.heapPtr

/-- `rt_free(rmem)`. The range test that follows the assertions repeats the second of them. -/
def rtFree (h : Heap) (rmem : Nat) : Option Heap :=
  if rmem = 0 then some h
  else if rmem % alignSize = 0 ∧ h.heapPtr ≤ rmem ∧ rmem < h.heapPtr + h.heapEnd then
    let mem := headerOf h rmem
    if h.used mem ≠ 0 ∧ h.magic mem = heapMagic then
      let h := (h.setUsed mem 0).setMagic mem heapMagic
      let h := if mem < h.lfree then { h with lfree := mem } else h
      let h := { h with usedMem := sub32 h.usedMem (sub32 (h.next mem) mem) }
      plugHoles h mem
    else none
  else none

def rtRealloc (h : Heap) (rmem newsize : Nat) : Option (Heap × Nat) :=
  let newsize := rtAlign newsize alignSize
  if h.memSizeAligned < newsize then some (h, 0)
  else if rmem = 0 then rtMalloc h newsize
  else if rmem < h.heapPtr ∨ h.heapPtr + h.heapEnd ≤ rmem then some (h, rmem)
  else
    let ptr := headerOf h rmem
    let size := sub32 (sub32 (h.next ptr) ptr) sizeofMem
    if size = newsize then some (h, rmem)
    else if add32 (add32 newsize sizeofMem) minSize < size then
      -- split memory block
      let h := { h with usedMem := sub32 h.usedMem (sub32 size newsize) }
      let ptr2 := add32 (add32 ptr sizeofMem) newsize
      (plugHoles (splitBlock h ptr ptr2) ptr2).map fun h => (h, rmem)
    else
      -- expand memory
      (rtMalloc h newsize).bind fun (h, nmem) =>
        if nmem ≠ 0 then
          let h := { h with mem := h.mem.copy nmem rmem (if size < newsize then size else newsize) }
          (rtFree h rmem).map fun h => (h, nmem)
        else some (h, 0)

/-- `rt_calloc(count, size)`: the product is a 32-bit one. -/
def rtCalloc (h : Heap) (count size : Nat) : Option (Heap × Nat) :=
  let n := count * size % wordSize
  (rtMalloc h n).map fun (h, p) =>
    if p ≠ 0 then ({ h with mem := h.mem.fill p n 0 }, p) else (h, p)

end NbIot.SmallMem
