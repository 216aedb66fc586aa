import NbIot.Heap.Requests

/-! # Aligned allocation

`rt_malloc_align` and `rt_free_align` of `kservice.c` over the heap of `mem.c`. The word in front of
the aligned pointer holds the pointer that `rt_malloc` has returned.
-/

namespace NbIot.SmallMem

/-! ## Aligned requests -/

/-- `align_ptr`, where `& ~(align - 1)` takes away the bits of `align - 1`. -/
def alignPtr (ptr align : Nat) : Nat :=
  let mask := sub32 align 1
  if ptr &&& mask = 0 then add32 ptr align else add32 ptr mask - (add32 ptr mask &&& mask)

def rtMallocAlign (h : Heap) (size align : Nat) : Option (Heap × Nat) :=
  let align := rtAlign align alignSize
  (rtMalloc h (add32 (rtAlign size alignSize) align)).map fun (h, ptr) =>
    if ptr = 0 then (h, 0)
    else
      let q := alignPtr ptr align
      ({ h with mem := h.mem.store (sub32 q 4) 4 ptr }, q)

def rtFreeAlign (h : Heap) (ptr : Nat) : Option Heap := rtFree h (h.mem.load (sub32 ptr 4) 4)

/-! ## The aligned pointer -/

variable {s : State} {h : Heap} {live : List Nat} {p k : Nat}

lemma rtAlign_of_mod (h4 : p % 4 = 0) (hp : p ≤ wordSize - 4) : rtAlign p alignSize = p := by
  unfold rtAlign alignSize add32 wordSize at *
  omega

/-- There is room for a word in front of the aligned pointer, and it is at most `align` bytes up. -/
theorem alignPtr_spec (h4 : p % 4 = 0) (hk : 2 ≤ k) (hlt : p + 2 ^ k < wordSize) :
    2 ^ k ∣ alignPtr p (2 ^ k) ∧ p + 4 ≤ alignPtr p (2 ^ k) ∧ alignPtr p (2 ^ k) ≤ p + 2 ^ k := by
  have hdvd : 4 ∣ 2 ^ k := pow_dvd_pow 2 hk
  have hpos : 0 < 2 ^ k := Nat.two_pow_pos k
  have hmask : sub32 (2 ^ k) 1 = 2 ^ k - 1 := sub32_of_le hpos (by omega)
  simp only [alignPtr, hmask, Nat.and_two_pow_sub_one_eq_mod]
  generalize 2 ^ k = a at *
  split
  · rename_i h0
    rw [add32_of_lt hlt]
    exact ⟨(Nat.dvd_of_mod_eq_zero h0).add (Nat.dvd_refl _), by omega, le_rfl⟩
  have hdiv := Nat.div_add_mod p a
  have hr := Nat.mod_lt p hpos
  have hr4 : p % a % 4 = 0 := by rw [Nat.mod_mod_of_dvd p hdvd, h4]
  -- the sum of the pointer and the mask is one round further, with one less behind it
  have hsum : p + (a - 1) = a * (p / a + 1) + (p % a - 1) := by
    rw [Nat.mul_succ]
    omega
  have hmod : (p + (a - 1)) % a = p % a - 1 := by
    rw [hsum, Nat.mul_add_mod, Nat.mod_eq_of_lt (by omega)]
  rw [add32_of_lt (by omega), hmod]
  refine ⟨⟨p / a + 1, by omega⟩, by omega, by omega⟩

/-! ## What the user writes -/

lemma Ok.payload (hs : Ok ⟨h, live⟩) (hp : p ∈ live) :
    p % 4 = 0 ∧ 0 < p ∧ payloadEnd h p < wordSize := by
  obtain ⟨bs, i, hlive⟩ := hs
  obtain ⟨q, hq, rfl⟩ := List.mem_map.mp (hlive.mem_iff.mp hp)
  have hb := i.used_bounds hq
  have h1 := i.arena.aligned
  have h2 := i.arena.heapEnd
  have h3 := i.arena.room
  rw [i.payloadEnd_eq hq, payloadAt]
  omega

/-- The application may write to a payload what it wants. -/
theorem Ok.write {m : Mem} (hs : Ok ⟨h, live⟩) (hp : p ∈ live)
    (hm : ∀ x, x < p ∨ payloadEnd h p ≤ x → h.mem x = m x) :
    Ok ⟨{ h with mem := m }, live⟩ ∧ payloadEnd { h with mem := m } p = payloadEnd h p := by
  obtain ⟨bs, i, hlive⟩ := hs
  obtain ⟨q, hq, rfl⟩ := List.mem_map.mp (hlive.mem_iff.mp hp)
  have hend := i.payloadEnd_eq hq
  have i' : Inv { h with mem := m } bs :=
    i.writePayload hq (fun x _ hx => hm x (.inl hx)) fun x hx _ => hm x (.inr (hend ▸ hx))
  exact ⟨⟨bs, i', hlive⟩, (i'.payloadEnd_eq hq).trans hend.symm⟩

/-! ## The law -/

/-- **Aligned allocation.** The pointer is aligned, the bytes behind it and the word in front of it
are inside one live block, and `rt_free_align` frees this block, whatever was written behind the
pointer. -/
theorem aligned_allocation (s : State) (hs : Sound s) (k : Nat) (hk : 2 ≤ k) (size : Nat)
    (hsize : size + 2 ^ k ≤ wordSize - 8) (h' : Heap) (q : Nat) (hq : q ≠ 0)
    (hcall : rtMallocAlign s.heap size (2 ^ k) = some (h', q)) :
    2 ^ k ∣ q ∧ ∃ ptr, Ok ⟨h', ptr :: s.live⟩ ∧ ptr + 4 ≤ q ∧ q + size ≤ payloadEnd h' ptr ∧
      ∀ m : Mem, (∀ x, x < q ∨ q + size ≤ x → h'.mem x = m x) →
        ∃ h'', rtFreeAlign { h' with mem := m } q = some h'' ∧ Ok ⟨h'', s.live⟩ := by
  have h4k : 2 ^ k % 4 = 0 := Nat.mod_eq_zero_of_dvd (pow_dvd_pow 2 hk)
  have halign : rtAlign (2 ^ k) alignSize = 2 ^ k := rtAlign_of_mod h4k (by omega)
  have hround : size ≤ rtAlign size alignSize ∧ rtAlign size alignSize ≤ size + 3 := by
    unfold rtAlign alignSize add32 wordSize at *
    omega
  have hn : add32 (rtAlign size alignSize) (2 ^ k) = rtAlign size alignSize + 2 ^ k :=
    add32_of_lt (by unfold wordSize at *; omega)
  obtain ⟨⟨h₁, ptr⟩, hm, hr⟩ := Option.map_eq_some_iff.mp hcall
  rw [halign, hn] at hm
  dsimp only at hr
  by_cases hptr : ptr = 0
  · rw [if_pos hptr] at hr
    cases hr
    exact absurd rfl hq
  rw [if_neg hptr, halign] at hr
  have hholds := malloc_holds hs (by unfold wordSize at *; omega) hm hptr
  unfold Holds at hholds
  have hok : Ok ⟨h₁, ptr :: s.live⟩ := by
    rcases hs with hs | ⟨ht, -⟩
    · obtain ⟨s', hstep, hs'⟩ := malloc_ok hs (rtAlign size alignSize + 2 ^ k)
      rw [step, hm] at hstep
      cases hstep
      simpa [gain, hptr] using hs'
    cases ht.rtMalloc_eq hm
    exact absurd rfl hptr
  obtain ⟨h4, hpos, hend⟩ := hok.payload List.mem_cons_self
  obtain ⟨hdvd, hlo, hhi⟩ := alignPtr_spec h4 hk (by omega : ptr + 2 ^ k < wordSize)
  obtain ⟨rfl, rfl⟩ := Prod.mk.inj hr
  have hback : sub32 (alignPtr ptr (2 ^ k)) 4 = alignPtr ptr (2 ^ k) - 4 :=
    sub32_of_le (by omega) (by omega)
  rw [hback]
  -- the word in front of the aligned pointer is written
  obtain ⟨hok', hend'⟩ := hok.write List.mem_cons_self
    (m := h₁.mem.store (alignPtr ptr (2 ^ k) - 4) 4 ptr) fun x hx =>
      Mem.agree_store _ _ _ _ x (x + 1) (by omega) x le_rfl (Nat.lt_succ_self x)
  refine ⟨hdvd, ptr, hok', hlo, by omega, fun m hm => ?_⟩
  obtain ⟨hfree, -⟩ := hok'.write List.mem_cons_self (m := m) fun x hx => hm x (by omega)
  have hload : m.load (alignPtr ptr (2 ^ k) - 4) 4 = ptr := by
    rw [← Mem.load_congr fun x _ hx => hm x (by omega), Mem.load_store]
    exact Nat.mod_eq_of_lt (by unfold wordSize at *; omega)
  obtain ⟨s', hstep, hs', hlive⟩ := free_ok hfree (.inr List.mem_cons_self)
  obtain ⟨h'', hf, rfl⟩ := Option.map_eq_some_iff.mp hstep
  rw [List.erase_cons_head] at hs'
  refine ⟨h'', ?_, hs'⟩
  rw [rtFreeAlign, hback, hload]
  exact hf

theorem aligned_allocation_sixteen : ∃ h h', rtSystemHeapInit (fun _ => 0xff) 4096 4156 = some h ∧
      rtMallocAlign h 8 16 = some (h', 4112) ∧
      ∃ h'', rtFreeAlign h' 4112 = some h'' ∧ Ok ⟨h'', []⟩ := by
  have heval : ∃ h, rtSystemHeapInit (fun _ => 0xff) 4096 4156 = some h ∧ h.memSizeAligned = 36 ∧
      ∃ r, rtMallocAlign h 8 16 = some r ∧ r.2 = 4112 := by decide +kernel
  obtain ⟨h, hinit, hM, ⟨h', q⟩, hr, rfl⟩ := heval
  have hok := rtSystemHeapInit_ok (by decide) hinit (by omega)
  obtain ⟨-, ptr, -, -, -, hfree⟩ := aligned_allocation ⟨h, []⟩ (.inl hok) 4 (by decide) 8
    (by decide) h' 4112 (by decide) hr
  exact ⟨h, h', hinit, hr, hfree h'.mem fun _ _ => rfl⟩

end NbIot.SmallMem
