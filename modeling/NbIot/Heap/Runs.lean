import NbIot.Basic.Run
import NbIot.Heap.Calls

/-! # Runs of the heap

The heap as a system: the calls of an application that keeps the pointers it was given, and the
bytes it writes to the memory behind them. `WellFormed` states the shape of the heap in terms of
the headers alone: what following `next` from the first header visits, what `prev`, `lfree` and
`used_mem` have to do with that, and where the payloads of the live pointers lie.
-/

namespace NbIot.SmallMem

open Heap Run List

/-! ## Runs and the law -/

structure State where
  heap : Heap
  live : List Nat

/-- The calls of `mem.c`, and a write of the application to one byte. -/
inductive Op where
  | malloc (size : Nat)
  | calloc (count size : Nat)
  | realloc (p newsize : Nat)
  | free (p : Nat)
  | store (a v : Nat)

/-- A pointer that was returned is live, `RT_NULL` is not. -/
def gain (q : Nat) (live : List Nat) : List Nat := if q = 0 then live else q :: live

/-- One step of the application. A `rt_realloc` that returns `RT_NULL` leaves the old block
allocated; otherwise the returned pointer replaces the old one. -/
def step (s : State) : Op → Option State
  | .malloc size => (rtMalloc s.heap size).map fun (h, q) => ⟨h, gain q s.live⟩
  | .calloc count size => (rtCalloc s.heap count size).map fun (h, q) => ⟨h, gain q s.live⟩
  | .realloc p newsize =>
    (rtRealloc s.heap p newsize).map fun (h, q) =>
      ⟨h, if q = 0 then s.live else q :: s.live.erase p⟩
  | .free p => (rtFree s.heap p).map fun h => ⟨h, s.live.erase p⟩
  | .store a v => some { s with heap := { s.heap with mem := s.heap.mem.store a 1 v } }

/-- The first address behind the payload of `p`: there the header of the next block stands. -/
def payloadEnd (h : Heap) (p : Nat) : Nat := h.heapPtr + h.next (headerOf h p)

/-- The application passes live pointers (or `RT_NULL`) only, and writes to their payloads only. -/
def Admissible (s : State) : Op → Prop
  | .malloc _ => True
  | .calloc _ _ => True
  | .realloc p _ => p = 0 ∨ p ∈ s.live
  | .free p => p = 0 ∨ p ∈ s.live
  | .store a _ => ∃ p ∈ s.live, p ≤ a ∧ a < payloadEnd s.heap p

/-- The 32-bit product of a `rt_calloc` can be rounded up to a multiple of four. -/
def CallocFits : Op → Prop
  | .calloc count size => count * size % wordSize ≤ wordSize - 4
  | _ => True

instance (s : State) (op : Op) : Decidable (Admissible s op) := by
  cases op <;> unfold Admissible <;> infer_instance

instance (op : Op) : Decidable (CallocFits op) := by
  cases op <;> unfold CallocFits <;> infer_instance

/-- Following `next` from `o` visits the offsets `os` and then ends at `heap_end`. -/
def Walk (h : Heap) : Nat → List Nat → Prop
  | o, [] => o = h.heapEnd
  | o, x :: xs => x = o ∧ o ≠ h.heapEnd ∧ Walk h (h.next o) xs

/-- The heap is well formed, `os` being the offsets of its blocks. -/
structure WellFormed (s : State) (os : List Nat) : Prop where
  walk : Walk s.heap 0 os
  increasing : (os ++ [s.heap.heapEnd]).IsChain (· < ·)
  aligned : ∀ o ∈ os ++ [s.heap.heapEnd], o % 4 = 0
  /-- Every block points back to its predecessor, the first one to the offset `0`. -/
  back : (0 :: os).IsChain fun p o => s.heap.prev o = p
  coalesced : os.IsChain fun a b => s.heap.used a ≠ 0 ∨ s.heap.used b ≠ 0
  lfree : s.heap.lfree = s.heap.heapEnd ∨ (s.heap.lfree ∈ os ∧ s.heap.used s.heap.lfree = 0)
  usedMem : s.heap.usedMem =
    ((os.filter fun o => s.heap.used o ≠ 0).map fun o => s.heap.next o - o).sum
  /-- The live pointers are the payloads of the used blocks. -/
  live : s.live.Perm ((os.filter fun o => s.heap.used o ≠ 0).map fun o => s.heap.heapPtr + o + 12)
  /-- Between two payloads there is at least a header. -/
  disjoint : s.live.Pairwise fun p q =>
    payloadEnd s.heap p + 12 ≤ q ∨ payloadEnd s.heap q + 12 ≤ p
  inside : ∀ p ∈ s.live, s.heap.heapPtr + 12 ≤ p ∧ p ≤ payloadEnd s.heap p ∧
    payloadEnd s.heap p ≤ s.heap.heapPtr + s.heap.heapEnd

/-! ## The law from the blocks -/

variable {h : Heap} {bs : List Blk} {s : State}

section

variable {p o : Nat}

lemma seg_walk (hs : Seg h.mem h.heapPtr p o bs) (hend : o + total bs = h.heapEnd) :
    Walk h o (offsets o bs) := by
  induction bs generalizing p o with
  | nil => exact hend
  | cons b bs ih =>
    obtain ⟨hh, h12, -, hs⟩ := hs
    have hn : h.next o = o + b.size := hh.next
    simp only [total] at hend
    refine ⟨rfl, by omega, ?_⟩
    rw [hn]
    exact ih hs (by omega)

lemma seg_increasing {m : Mem} {b : Nat} (hs : Seg m b p o bs) :
    (offsets o bs ++ [o + total bs]).IsChain (· < ·) := by
  induction bs generalizing p o with
  | nil => exact isChain_singleton _
  | cons x bs ih =>
    obtain ⟨-, h12, -, hs⟩ := hs
    have hrest := ih hs
    simp only [offsets, total, cons_append, ← add_assoc]
    refine isChain_cons.mpr ⟨fun y hy => ?_, hrest⟩
    cases bs with
    | nil =>
      simp only [offsets, nil_append, head?_cons, Option.mem_some_iff] at hy
      omega
    | cons z bs =>
      simp only [offsets, cons_append, head?_cons, Option.mem_some_iff] at hy
      omega

lemma seg_aligned {m : Mem} {b : Nat} (hs : Seg m b p o bs) (ho : o % 4 = 0) :
    ∀ x ∈ offsets o bs ++ [o + total bs], x % 4 = 0 := by
  induction bs generalizing p o with
  | nil => simpa [offsets, total] using ho
  | cons y bs ih =>
    obtain ⟨-, -, h4, hs⟩ := hs
    intro x hx
    simp only [total, ← add_assoc] at hx
    rcases mem_cons.mp hx with rfl | hx
    · exact ho
    exact ih hs (by omega) x hx

lemma seg_back (hs : Seg h.mem h.heapPtr p o bs) :
    (p :: offsets o bs).IsChain fun p o => h.prev o = p := by
  induction bs generalizing p o with
  | nil => exact isChain_singleton _
  | cons b bs ih =>
    obtain ⟨hh, -, -, hs⟩ := hs
    exact isChain_cons_cons.mpr ⟨hh.prev, ih hs⟩

lemma seg_used {b : Blk} (hs : Seg h.mem h.heapPtr p o (b :: bs)) :
    h.used o ≠ 0 ↔ b.used = true := by
  have hu : h.used o = if b.used then 1 else 0 := hs.1.used
  rw [hu]
  cases b.used <;> simp

lemma seg_coalesced (hs : Seg h.mem h.heapPtr p o bs) (hc : Coalesced bs) :
    (offsets o bs).IsChain fun a b => h.used a ≠ 0 ∨ h.used b ≠ 0 := by
  induction bs generalizing p o with
  | nil => exact isChain_nil
  | cons b bs ih =>
    have hb := seg_used hs
    cases bs with
    | nil => exact isChain_singleton _
    | cons c bs =>
      obtain ⟨hbc, hc⟩ := isChain_cons_cons.mp hc
      obtain ⟨-, -, -, hs⟩ := hs
      have hcu := seg_used hs
      exact isChain_cons_cons.mpr ⟨hbc.imp hb.mpr hcu.mpr, ih hs hc⟩

lemma seg_filter (hs : Seg h.mem h.heapPtr p o bs) :
    (offsets o bs).filter (fun o => h.used o ≠ 0) = (usedAt o bs).map Prod.fst := by
  induction bs generalizing p o with
  | nil => rfl
  | cons b bs ih =>
    have hb := seg_used hs
    obtain ⟨-, -, -, hs⟩ := hs
    have hrest := ih hs
    simp only [offsets, usedAt]
    by_cases hu : b.used = true
    · rw [filter_cons_of_pos (by simpa using hb.mpr hu), if_pos hu, hrest]
      rfl
    rw [filter_cons_of_neg (by simpa using fun hz => hu (hb.mp hz)), if_neg hu, hrest]

lemma mem_offsets_of_freeAt (ho : o ∈ freeAt 0 bs) (t : Tiles h bs) :
    o ∈ offsets 0 bs ∧ h.used o = 0 := by
  obtain ⟨pre, s, post, rfl, rfl⟩ := mem_freeAt.mp ho
  rw [zero_add]
  refine ⟨?_, t.used_eq_zero.mpr rfl⟩
  rw [offsets_append]
  simp [offsets]

end

/-! ## Live blocks -/

def payloadAt (h : Heap) (q : Nat × Nat) : Nat := h.heapPtr + q.1 + 12

def Ok (s : State) : Prop :=
  ∃ bs, Inv s.heap bs ∧ s.live.Perm ((usedAt 0 bs).map (payloadAt s.heap))

section

variable {h' : Heap}

lemma Inv.payloadEnd_eq (i : Inv h bs) {q : Nat × Nat} (hq : q ∈ usedAt 0 bs) :
    payloadEnd h (payloadAt h q) = h.heapPtr + q.1 + q.2 := by
  rw [payloadEnd, payloadAt, i.headerOf_eq hq, (i.used_bounds hq).2.2.2.2, add_assoc]

lemma wellFormed_of_inv (i : Inv s.heap bs)
    (hlive : s.live.Perm ((usedAt 0 bs).map (payloadAt s.heap))) : WellFormed s (offsets 0 bs) := by
  have hseg := i.tiles.seg
  have hfill := i.tiles.fills
  have hzero : 0 + total bs = s.heap.heapEnd := by rw [zero_add, hfill]
  have hfilter := seg_filter hseg
  have hnexts : ((usedAt 0 bs).map Prod.fst).map (fun o => s.heap.next o - o) =
      (usedAt 0 bs).map Prod.snd := by
    rw [List.map_map]
    refine map_congr_left fun q hq => ?_
    have hn := (i.used_bounds hq).2.2.2.2
    simp only [Function.comp]
    omega
  constructor
  · exact seg_walk hseg hzero
  · rw [← hzero]
    exact seg_increasing hseg
  · rw [← hzero]
    exact seg_aligned hseg rfl
  · exact seg_back hseg
  · exact seg_coalesced hseg i.coalesced
  · exact i.lfree.imp id fun hl => mem_offsets_of_freeAt hl i.tiles
  · rw [hfilter, hnexts, i.usedMem, usedSum]
  · rw [hfilter, List.map_map]
    exact hlive
  · refine (List.Perm.pairwise_iff (fun hpq => hpq.symm) hlive).mpr ?_
    rw [pairwise_map]
    refine List.Pairwise.imp_of_mem (fun {q r} hq hr hle => .inl ?_) (usedAt_pairwise 0 bs).2
    rw [i.payloadEnd_eq hq, payloadAt]
    omega
  intro p hp
  obtain ⟨q, hq, rfl⟩ := List.mem_map.mp (hlive.mem_iff.mp hp)
  have hb := i.used_bounds hq
  rw [i.payloadEnd_eq hq, payloadAt]
  refine ⟨by omega, by omega, by omega⟩

lemma Ok.wellFormed (hs : Ok s) : ∃ os, WellFormed s os := by
  obtain ⟨bs, i, hlive⟩ := hs
  exact ⟨_, wellFormed_of_inv i hlive⟩

lemma payloadAt_congr (hs : SameArena h h') : payloadAt h' = payloadAt h := by
  funext q
  rw [payloadAt, payloadAt, hs.heapPtr]

lemma Ok.gain {bs bs' : List Blk} {o n : Nat} (i' : Inv h' bs')
    (hlive : s.live.Perm ((usedAt 0 bs).map (payloadAt s.heap))) (hsame : SameArena s.heap h')
    (hperm : (usedAt 0 bs').Perm ((o, n) :: usedAt 0 bs)) :
    Ok ⟨h', SmallMem.gain (s.heap.heapPtr + o + 12) s.live⟩ := by
  refine ⟨bs', i', ?_⟩
  rw [payloadAt_congr hsame]
  exact (hlive.cons _).trans (hperm.map (payloadAt s.heap)).symm

lemma erase_null (hlive : s.live.Perm ((usedAt 0 bs).map (payloadAt s.heap))) :
    s.live.erase 0 = s.live := by
  refine erase_of_not_mem fun hmem => ?_
  obtain ⟨q, -, hq⟩ := List.mem_map.mp (hlive.mem_iff.mp hmem)
  unfold payloadAt at hq
  omega

end

/-! ## What a call preserves -/

section

variable {beginAddr endAddr : Nat} {a v : Nat}

lemma malloc_ok (hs : Ok s) (n : Nat) : ∃ s', step s (.malloc n) = some s' ∧ Ok s' := by
  obtain ⟨bs, i, hlive⟩ := hs
  rw [step]
  rcases rtMalloc_spec i n with ⟨hm, -⟩ | ⟨h', bs', o, k, hm, i', hsame, hperm, -⟩
  · rw [hm]
    exact ⟨_, rfl, bs, i, hlive⟩
  rw [hm]
  exact ⟨_, rfl, Ok.gain i' hlive hsame hperm⟩

lemma calloc_ok (hs : Ok s) {count size : Nat} (hfit : CallocFits (.calloc count size)) :
    ∃ s', step s (.calloc count size) = some s' ∧ Ok s' := by
  obtain ⟨bs, i, hlive⟩ := hs
  rw [step]
  rcases rtCalloc_spec i hfit with hm | ⟨h', bs', o, k, hm, i', hsame, hperm, -⟩
  · rw [hm]
    exact ⟨_, rfl, bs, i, hlive⟩
  rw [hm]
  exact ⟨_, rfl, Ok.gain i' hlive hsame hperm⟩

lemma free_ok (hs : Ok s) {p : Nat} (hp : p = 0 ∨ p ∈ s.live) :
    ∃ s', step s (.free p) = some s' ∧ Ok s' ∧ s'.live = s.live.erase p := by
  obtain ⟨bs, i, hlive⟩ := hs
  rw [step]
  rcases hp with rfl | hp
  · refine ⟨_, rfl, ⟨bs, i, ?_⟩, rfl⟩
    rw [erase_null hlive]
    exact hlive
  obtain ⟨q, hq, rfl⟩ := List.mem_map.mp (hlive.mem_iff.mp hp)
  obtain ⟨h', bs', hf, i', hsame, hperm, -⟩ := rtFree_spec i hq
  rw [payloadAt, hf]
  refine ⟨_, rfl, ⟨bs', i', ?_⟩, rfl⟩
  have h1 := (hlive.trans (hperm.map (payloadAt s.heap))).erase (payloadAt s.heap q)
  rw [map_cons, erase_cons_head] at h1
  rw [payloadAt_congr hsame]
  exact h1

lemma realloc_ok (hs : Ok s) {p : Nat} (hp : p = 0 ∨ p ∈ s.live) (n : Nat) :
    ∃ s', step s (.realloc p n) = some s' ∧ Ok s' := by
  rcases hp with rfl | hp
  · -- `RT_NULL` is reallocated by `rt_malloc`
    have hm : ∃ s', ((rtMalloc s.heap (rtAlign n alignSize)).map fun (h, q) =>
        (⟨h, gain q s.live⟩ : State)) = some s' ∧ Ok s' := malloc_ok hs _
    obtain ⟨bs, i, hlive⟩ := hs
    rw [step, rtRealloc]
    simp only [if_true, erase_null hlive]
    split
    · exact ⟨_, rfl, bs, i, hlive⟩
    exact hm
  obtain ⟨bs, i, hlive⟩ := hs
  obtain ⟨q, hq, rfl⟩ := List.mem_map.mp (hlive.mem_iff.mp hp)
  obtain ⟨h', bs', r, hr, i', hsame, hrep, -⟩ := rtRealloc_spec i hq n
  rw [step, payloadAt, hr]
  rcases hrep with ⟨rfl, hu⟩ | ⟨o', k', rest, rfl, h1, h2⟩
  · refine ⟨_, rfl, bs', i', ?_⟩
    rw [payloadAt_congr hsame, hu]
    exact hlive
  refine ⟨_, rfl, bs', i', ?_⟩
  rw [payloadAt_congr hsame]
  have h3 := (hlive.trans (h1.map (payloadAt s.heap))).erase (payloadAt s.heap q)
  rw [map_cons, erase_cons_head] at h3
  exact (h3.cons _).trans (h2.map (payloadAt s.heap)).symm

lemma Inv.store (i : Inv s.heap bs) (hlive : s.live.Perm ((usedAt 0 bs).map (payloadAt s.heap)))
    (ha : Admissible s (.store a v)) : Inv { s.heap with mem := s.heap.mem.store a 1 v } bs := by
  obtain ⟨p, hp, hlo, hhi⟩ := ha
  obtain ⟨q, hq, rfl⟩ := List.mem_map.mp (hlive.mem_iff.mp hp)
  rw [i.payloadEnd_eq hq] at hhi
  refine i.writePayload hq ?_ ?_
  · exact Mem.agree_store _ _ _ _ _ _ (.inl hlo)
  exact Mem.agree_store _ _ _ _ _ _ (.inr hhi)

lemma store_ok (hs : Ok s) (ha : Admissible s (.store a v)) :
    ∃ s', step s (.store a v) = some s' ∧ Ok s' := by
  obtain ⟨bs, i, hlive⟩ := hs
  exact ⟨_, rfl, bs, i.store hlive ha, hlive⟩

lemma step_ok (hs : Ok s) {op : Op} (ha : Admissible s op) (hfit : CallocFits op) :
    ∃ s', step s op = some s' ∧ Ok s' := by
  cases op with
  | malloc n => exact malloc_ok hs n
  | calloc count size => exact calloc_ok hs hfit
  | realloc p n => exact realloc_ok hs ha n
  | free p =>
    obtain ⟨s', h1, h2, -⟩ := free_ok hs ha
    exact ⟨s', h1, h2⟩
  | store a v => exact store_ok hs ha

lemma init_hdr (h : Heap) {e : Nat} (he : 12 ≤ e) (hlt : e < 256 ^ 4) :
    Hdr ((((((((h.setMagic 0 heapMagic).setNext 0 e).setPrev 0 0).setUsed 0 0).setMagic e
      heapMagic).setUsed e 1).setNext e e).setPrev e e).mem (h.heapPtr + 0) false e 0 := by
  simp only [Heap.setMagic, Heap.setUsed, Heap.setNext, Heap.setPrev, Heap.write_mem,
    Heap.write_heapPtr]
  constructor <;> simp (disch := omega) only [Mem.load_store_of_disjoint, Mem.load_store]
  · rfl
  · rfl
  · exact Nat.mod_eq_of_lt hlt
  rfl

lemma init_last (h : Heap) {e : Nat} (hlt : e < 256 ^ 4) :
    ((((h.setMagic e heapMagic).setUsed e 1).setNext e e).setPrev e e).used e = 1 ∧
      ((((h.setMagic e heapMagic).setUsed e 1).setNext e e).setPrev e e).next e = e := by
  simp only [Heap.setUsed, Heap.setNext, Heap.setPrev, Heap.write_mem,
    Heap.write_heapPtr, Heap.used, Heap.next]
  constructor <;> simp (disch := omega) only [Mem.load_store_of_disjoint, Mem.load_store]
  · rfl
  · exact Nat.mod_eq_of_lt hlt

/-- What `rt_system_heap_init` leaves: one free block in front of the header at `heap_end`. -/
structure Initial (h : Heap) : Prop where
  aligned : h.heapPtr % 4 = 0
  room : h.heapPtr + h.memSizeAligned + 24 < wordSize
  heapEnd : h.heapEnd = h.memSizeAligned + 12
  lfree : h.lfree = 0
  usedMem : h.usedMem = 0
  first : Tiles h [⟨h.memSizeAligned + 12, false⟩]
  last : h.used h.heapEnd = 1 ∧ h.next h.heapEnd = h.heapEnd

lemma rtSystemHeapInit_spec {m : Mem}
    (hlt : endAddr < wordSize) (hinit : rtSystemHeapInit m beginAddr endAddr = some h) :
    Initial h := by
  have hb : rtAlign beginAddr alignSize % 4 = 0 := rtAlign_mod _
  have he : rtAlignDown endAddr alignSize % 4 = 0 ∧ rtAlignDown endAddr alignSize ≤ endAddr := by
    unfold rtAlignDown alignSize
    omega
  rw [rtSystemHeapInit] at hinit
  generalize rtAlign beginAddr alignSize = b at hb hinit
  generalize rtAlignDown endAddr alignSize = e at he hinit
  by_cases hroom : 2 * sizeofMem < e ∧ b ≤ e - 2 * sizeofMem
  · rw [if_pos hroom] at hinit
    cases hinit
    unfold sizeofMem at *
    have hpow : e - b - 2 * 12 + 12 < 256 ^ 4 := by unfold wordSize at hlt; omega
    have hmod : (e - b - 2 * 12 + 12) % 4 = 0 := by omega
    have hh := init_hdr ⟨b, e - b - 2 * 12 + 12, 0, e - b - 2 * 12, 0, 0, m⟩
      (by omega) hpow
    refine ⟨hb, ?_, rfl, rfl, rfl, ⟨⟨?_, ?_, hmod, trivial⟩, rfl⟩, init_last _ hpow⟩
    · show b + (e - b - 2 * 12) + 24 < wordSize
      omega
    · rw [zero_add]
      exact hh
    show 12 ≤ e - b - 2 * 12 + 12
    omega
  rw [if_neg hroom] at hinit
  simp at hinit

lemma Initial.lfreeOk (i : Initial h) : LfreeOk h [⟨h.memSizeAligned + 12, false⟩] := by
  right
  simp [i.lfree, freeAt]

lemma rtSystemHeapInit_ok {m : Mem}
    (hlt : endAddr < wordSize) (hinit : rtSystemHeapInit m beginAddr endAddr = some h)
    (hM : 12 ≤ h.memSizeAligned) : Ok ⟨h, []⟩ := by
  have i := rtSystemHeapInit_spec hlt hinit
  refine ⟨[⟨h.memSizeAligned + 12, false⟩], ⟨⟨i.aligned, i.room, hM, i.heapEnd⟩, i.first,
    isChain_singleton _, i.lfreeOk, i.usedMem, ?_⟩, List.Perm.nil⟩
  simp [usedAt]

lemma free_all {ps : List Nat} (hs : Ok s) (hps : ps.Perm s.live) :
    ∃ s', exec step s (ps.map Op.free) = some s' ∧ Ok s' ∧ s'.live = [] := by
  induction ps generalizing s with
  | nil => exact ⟨s, rfl, hs, nil_perm.mp hps⟩
  | cons p ps ih =>
    have hp : p ∈ s.live := hps.mem_iff.mp (by simp)
    obtain ⟨t, ht, hok, hlive⟩ := free_ok hs (.inr hp)
    have hrest : ps.Perm t.live := by
      have := hps.erase p
      rwa [erase_cons_head, ← hlive] at this
    obtain ⟨s', hs', hok', hnil⟩ := ih hok hrest
    exact ⟨s', exec_cons_eq_some.mpr ⟨t, ht, hs'⟩, hok', hnil⟩

lemma used_false_of_usedAt_nil {o : Nat} (hu : usedAt o bs = []) :
    ∀ b ∈ bs, b.used = false := by
  induction bs generalizing o with
  | nil => simp
  | cons b bs ih =>
    simp only [usedAt] at hu
    split at hu
    · simp at hu
    next hb =>
      intro c hc
      rcases mem_cons.mp hc with rfl | hc
      · simpa using hb
      exact ih hu c hc

lemma Ok.single (hs : Ok s) (hnil : s.live = []) : WellFormed s [0] ∧ s.heap.used 0 = 0 := by
  obtain ⟨bs, i, hlive⟩ := hs
  have hwf := wellFormed_of_inv i hlive
  rw [hnil] at hlive
  have hfree : ∀ b ∈ bs, b.used = false :=
    used_false_of_usedAt_nil (map_eq_nil_iff.mp (nil_perm.mp hlive))
  have hfill := i.tiles.fills
  have hend := i.arena.heapEnd
  cases bs with
  | nil =>
    simp only [total] at hfill
    omega
  | cons b bs =>
    have hb := hfree b (by simp)
    cases bs with
    | nil =>
      have t : Tiles s.heap ([] ++ b :: []) := i.tiles
      exact ⟨hwf, t.used_eq_zero.mpr hb⟩
    | cons c bs =>
      -- two neighbours cannot both be free
      have hc := hfree c (by simp)
      have := (isChain_cons_cons.mp i.coalesced).1
      rw [hb, hc] at this
      simp at this

end

/-! ## Whole runs -/

/-- **The heap invariant.** On every arena of at least twelve bytes, every run of calls with live
pointers whose `rt_calloc` products can be rounded up returns and ends in a well-formed heap;
freeing what is live then, in any order, leaves one free block. -/
theorem wellFormed_of_run (m : Mem) (beginAddr endAddr : Nat) (h : Heap)
    (hlt : endAddr < wordSize) (hinit : rtSystemHeapInit m beginAddr endAddr = some h)
    (hM : 12 ≤ h.memSizeAligned) (ops : List Op)
    (hops : Meets step (fun s op => Admissible s op ∧ CallocFits op) ⟨h, []⟩ ops) :
    ∃ s, exec step ⟨h, []⟩ ops = some s ∧ (∃ os, WellFormed s os) ∧
      ∀ ps : List Nat, ps.Perm s.live →
        ∃ s', exec step s (ps.map Op.free) = some s' ∧ WellFormed s' [0] ∧ s'.heap.used 0 = 0 := by
  have hstep : ∀ s op, Ok s → Admissible s op ∧ CallocFits op → ∃ s', step s op = some s' ∧ Ok s' :=
    fun s op hs hop => step_ok hs hop.1 hop.2
  obtain ⟨s, hs, hok⟩ := exec_isSome_of_meets hstep (rtSystemHeapInit_ok hlt hinit hM) hops
  refine ⟨s, hs, hok.wellFormed, fun ps hps => ?_⟩
  obtain ⟨s', hs', hok', hnil⟩ := free_all hok hps
  exact ⟨s', hs', hok'.single hnil⟩

theorem wellFormed_of_run_malloc_free : ∃ h s, rtSystemHeapInit (fun _ => 0xff) 4096 4156 = some h ∧
      exec step ⟨h, []⟩ [.malloc 4, .free 4108] = some s ∧ ∃ os, WellFormed s os := by
  obtain ⟨h, hinit, hM, hmeets⟩ : ∃ h, rtSystemHeapInit (fun _ => 0xff) 4096 4156 = some h ∧
      h.memSizeAligned = 36 ∧ Meets step (fun s op => Admissible s op ∧ CallocFits op) ⟨h, []⟩
        [.malloc 4, .free 4108] := by decide +kernel
  obtain ⟨s, hs, hwf, -⟩ := wellFormed_of_run (fun _ => 0xff) 4096 4156 h (by decide) hinit
    (by omega) _ hmeets
  exact ⟨h, s, hinit, hs, hwf⟩

lemma walk_of_loop {h : Heap} (hn : h.next 0 = 0) (he : h.heapEnd ≠ 0) (os : List Nat) :
    ¬ Walk h 0 os := by
  induction os with
  | nil => exact fun hw => he hw.symm
  | cons o os ih =>
    rintro ⟨-, -, hw⟩
    rw [hn] at hw
    exact ih hw

/-- `rt_calloc(1, 0xffffffff)`: `RT_ALIGN` wraps to zero, so a block of twelve bytes is handed
out, and clearing 4294967295 bytes runs over the headers. -/
theorem calloc_breaks_headers :
    ∃ h s, rtSystemHeapInit (fun _ => 0xff) 4096 4156 = some h ∧ 12 ≤ h.memSizeAligned ∧
      Meets step Admissible ⟨h, []⟩ [.calloc 1 0xffffffff] ∧
      exec step ⟨h, []⟩ [.calloc 1 0xffffffff] = some s ∧ ¬ ∃ os, WellFormed s os := by
  obtain ⟨h, hinit, hM, s, hs, hn, he⟩ : ∃ h, rtSystemHeapInit (fun _ => 0xff) 4096 4156 = some h ∧
      12 ≤ h.memSizeAligned ∧ ∃ s, exec step ⟨h, []⟩ [.calloc 1 0xffffffff] = some s ∧
        s.heap.next 0 = 0 ∧ s.heap.heapEnd = 48 := by decide +kernel
  refine ⟨h, s, hinit, hM, ⟨trivial, fun _ _ => trivial⟩, hs, ?_⟩
  rintro ⟨os, hwf⟩
  exact walk_of_loop hn (by omega) os hwf.walk

end NbIot.SmallMem
