import NbIot.Heap.Mem

/-! # The arena as a list of blocks

The abstract view of the heap: a list of blocks, each with its size (header included) and a flag.
`Seg m b p o bs` connects it to the bytes: the headers of the blocks `bs` stand in the memory `m`
from offset `o` on, doubly linked, the first one pointing back to `p`.
-/

namespace NbIot.SmallMem

open List

/-! ## Blocks and their offsets -/

/-- A block of the arena: the distance to the next header, and the used flag. -/
structure Blk where
  size : Nat
  used : Bool
  deriving DecidableEq

def total : List Blk → Nat
  | [] => 0
  | b :: bs => b.size + total bs

/-- The offset of the last block of `bs`, placed at `o`; `p` when there is none. -/
def lastOff (p : Nat) : Nat → List Blk → Nat
  | _, [] => p
  | o, b :: bs => lastOff o (o + b.size) bs

/-- Offset and size of the used blocks of `bs`, placed at `o`. -/
def usedAt : Nat → List Blk → List (Nat × Nat)
  | _, [] => []
  | o, b :: bs => if b.used then (o, b.size) :: usedAt (o + b.size) bs else usedAt (o + b.size) bs

/-- The offsets of the free blocks of `bs`, placed at `o`. -/
def freeAt : Nat → List Blk → List Nat
  | _, [] => []
  | o, b :: bs => if b.used then freeAt (o + b.size) bs else o :: freeAt (o + b.size) bs

/-- The offsets of the blocks of `bs`, placed at `o`. -/
def offsets : Nat → List Blk → List Nat
  | _, [] => []
  | o, b :: bs => o :: offsets (o + b.size) bs

def Coalesced (bs : List Blk) : Prop :=
  bs.IsChain fun a b => a.used = true ∨ b.used = true

/-! ## Lists of blocks in two parts -/

lemma total_append (xs ys : List Blk) : total (xs ++ ys) = total xs + total ys := by
  induction xs with
  | nil => simp [total]
  | cons b bs ih => simp only [cons_append, total]; omega

lemma total_concat (xs : List Blk) (x : Blk) : total (xs ++ [x]) = total xs + x.size :=
  total_append xs [x]

lemma lastOff_concat (p o : Nat) (bs : List Blk) (b : Blk) :
    lastOff p o (bs ++ [b]) = o + total bs := by
  induction bs generalizing p o with
  | nil => rfl
  | cons c bs ih =>
    simp only [cons_append, lastOff, total, ih]
    omega

lemma usedAt_append (o : Nat) (xs ys : List Blk) :
    usedAt o (xs ++ ys) = usedAt o xs ++ usedAt (o + total xs) ys := by
  induction xs generalizing o with
  | nil => rfl
  | cons b bs ih =>
    simp only [cons_append, usedAt, ih, add_assoc]
    split <;> rfl

lemma freeAt_append (o : Nat) (xs ys : List Blk) :
    freeAt o (xs ++ ys) = freeAt o xs ++ freeAt (o + total xs) ys := by
  induction xs generalizing o with
  | nil => rfl
  | cons b bs ih =>
    simp only [cons_append, freeAt, ih, add_assoc]
    split <;> rfl

lemma offsets_append (o : Nat) (xs ys : List Blk) :
    offsets o (xs ++ ys) = offsets o xs ++ offsets (o + total xs) ys := by
  induction xs generalizing o with
  | nil => rfl
  | cons b bs ih => simp only [cons_append, offsets, total, ih, add_assoc]

variable {bs : List Blk} {m m' : Mem} {o b p : Nat}

lemma exists_cut_cons {c x : Blk} {q : Nat} :
    (∃ pre post, c :: bs = pre ++ x :: post ∧ q = o + total pre) ↔
      c = x ∧ q = o ∨ ∃ pre post, bs = pre ++ x :: post ∧ q = o + c.size + total pre := by
  constructor
  · rintro ⟨pre, post, he, h⟩
    cases pre with
    | nil => exact .inl ⟨(List.cons.inj he).1, h⟩
    | cons c' pre =>
      obtain ⟨rfl, rfl⟩ := List.cons.inj he
      exact .inr ⟨pre, post, rfl, by simp only [total] at h; omega⟩
  rintro (⟨rfl, rfl⟩ | ⟨pre, post, rfl, rfl⟩)
  · exact ⟨[], bs, rfl, rfl⟩
  exact ⟨c :: pre, post, rfl, by simp only [total]; omega⟩

lemma mem_usedAt {q : Nat × Nat} : q ∈ usedAt o bs ↔
      ∃ pre post, bs = pre ++ ⟨q.2, true⟩ :: post ∧ q.1 = o + total pre := by
  induction bs generalizing o with
  | nil => simp [usedAt]
  | cons c bs ih =>
    obtain ⟨s, u⟩ := c
    rw [exists_cut_cons, ← ih]
    cases u with
    | false => simp [usedAt]
    | true => simp [usedAt, Prod.ext_iff, and_comm, eq_comm]

lemma mem_freeAt {q : Nat} :
    q ∈ freeAt o bs ↔ ∃ pre s post, bs = pre ++ ⟨s, false⟩ :: post ∧ q = o + total pre := by
  rw [exists_comm]
  induction bs generalizing o with
  | nil => simp [freeAt]
  | cons c bs ih =>
    obtain ⟨s, u⟩ := c
    simp only [exists_cut_cons, exists_or, ← ih]
    cases u <;> simp [freeAt]

/-! ## Headers that say where the blocks are -/

/-- A block header at the address `a`. -/
structure Hdr (m : Mem) (a : Nat) (used : Bool) (next prev : Nat) : Prop where
  magic : m.load a 2 = heapMagic
  used : m.load (a + 2) 2 = if used then 1 else 0
  next : m.load (a + 4) 4 = next
  prev : m.load (a + 8) 4 = prev

lemma Hdr.congr {a next prev : Nat} {u : Bool} (h : Hdr m a u next prev)
    (hag : m.Agree m' a (a + 12)) : Hdr m' a u next prev where
  magic := hag.load (by omega) (by omega) h.magic
  used := hag.load (by omega) (by omega) h.used
  next := hag.load (by omega) (by omega) h.next
  prev := hag.load (by omega) (by omega) h.prev

lemma Hdr.renext {a next next' prev : Nat} {u : Bool} (h : Hdr m a u next prev)
    (hlo : m.Agree m' a (a + 4)) (hhi : m.Agree m' (a + 8) (a + 12))
    (hn : m'.load (a + 4) 4 = next') : Hdr m' a u next' prev where
  magic := hlo.load (by omega) (by omega) h.magic
  used := hlo.load (by omega) (by omega) h.used
  next := hn
  prev := hhi.load (by omega) (by omega) h.prev

/-- The headers of the blocks `bs` stand at the offset `o` of the arena at `b`, linked in both
directions; the first one points back to the offset `p`. -/
def Seg (m : Mem) (b : Nat) : Nat → Nat → List Blk → Prop
  | _, _, [] => True
  | p, o, x :: bs =>
    Hdr m (b + o) x.used (o + x.size) p ∧ 12 ≤ x.size ∧ x.size % 4 = 0 ∧ Seg m b o (o + x.size) bs

lemma seg_append {xs ys : List Blk} :
    Seg m b p o (xs ++ ys) ↔ Seg m b p o xs ∧ Seg m b (lastOff p o xs) (o + total xs) ys := by
  induction xs generalizing p o with
  | nil => simp [Seg, lastOff, total]
  | cons x xs ih =>
    simp only [cons_append, Seg, lastOff, total, ih, add_assoc, and_assoc]

lemma Seg.frame (h : Seg m b p o bs)
    (hag : m.Agree m' (b + o) (b + o + total bs)) : Seg m' b p o bs := by
  induction bs generalizing p o with
  | nil => trivial
  | cons x bs ih =>
    obtain ⟨hh, h12, h4, hs⟩ := h
    simp only [total] at hag
    exact ⟨hh.congr (hag.mono (by omega) (by omega)), h12, h4,
      ih hs (hag.mono (by omega) (by omega))⟩

lemma Seg.reprev {p' : Nat} (h : Seg m b p o bs) (hlo : m.Agree m' (b + o) (b + o + 8))
    (hhi : m.Agree m' (b + o + 12) (b + o + total bs))
    (hp : bs ≠ [] → m'.load (b + o + 8) 4 = p') : Seg m' b p' o bs := by
  cases bs with
  | nil => trivial
  | cons x bs =>
    obtain ⟨hh, h12, h4, hs⟩ := h
    simp only [total] at hhi
    refine ⟨⟨?_, ?_, ?_, hp (by simp)⟩, h12, h4, hs.frame (hhi.mono (by omega) (by omega))⟩
    · exact hlo.load (by omega) (by omega) hh.magic
    · exact hlo.load (by omega) (by omega) hh.used
    exact hlo.load (by omega) (by omega) hh.next

lemma Seg.sizes (h : Seg m b p o bs) : ∀ x ∈ bs, 12 ≤ x.size ∧ x.size % 4 = 0 := by
  induction bs generalizing p o with
  | nil => simp
  | cons y bs ih =>
    obtain ⟨-, h12, h4, hs⟩ := h
    intro x hx
    rcases mem_cons.mp hx with rfl | hx
    · exact ⟨h12, h4⟩
    exact ih hs x hx

lemma total_mod_four (h : ∀ x ∈ bs, 12 ≤ x.size ∧ x.size % 4 = 0) : total bs % 4 = 0 := by
  induction bs with
  | nil => rfl
  | cons b bs ih =>
    have h1 := (h b (by simp)).2
    have h2 := ih fun x hx => h x (by simp [hx])
    simp only [total]
    omega

end NbIot.SmallMem
