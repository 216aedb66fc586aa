import NbIot.Finsh.Vm

/-! # Rules for code of the virtual machine

A `Block` is a contract for a piece of the text: from any machine that stands at its beginning with
given live slots and a given memory, the machine runs to its end with other ones. The live slots are
listed from the top; what the slots above `finsh_sp` hold is left open. There is one rule for each
operation on 32-bit values, and `Block.trans` puts contracts together.
-/

namespace NbIot.Finsh

open List Option

/-! ## Code in the segment -/

/-- The bytes `code` are in the text at `k`. -/
def Placed (text : List UInt8) (k : Nat) (code : List UInt8) : Prop := code <+: text.drop k

variable {b : UInt8} {k : Nat} {stack : Nat → BitVec 32} {text c : List UInt8}
  {xs : List (BitVec 32)}

lemma placed_append {d : List UInt8} :
    Placed text k (c ++ d) ↔ Placed text k c ∧ Placed text (k + c.length) d := by
  constructor
  · rintro ⟨rest, h⟩
    refine ⟨⟨d ++ rest, by rw [← h, append_assoc]⟩, rest, ?_⟩
    rw [← drop_drop, ← h, append_assoc, drop_left]
  rintro ⟨⟨rest, h⟩, rest', h'⟩
  refine ⟨rest', ?_⟩
  rw [← drop_drop, ← h, drop_left] at h'
  rw [append_assoc, h', h]

lemma placed_cons : Placed text k (b :: c) ↔ Placed text k [b] ∧ Placed text (k + 1) c :=
  placed_append (c := [b])

lemma Placed.get (h : Placed text k [b]) : text[k]? = some b := by
  obtain ⟨rest, h⟩ := h
  rw [← add_zero k, ← getElem?_drop, ← h]
  rfl

lemma Placed.lt (h : Placed text k [b]) : k < text.length := (List.getElem?_eq_some_iff.mp h.get).1

lemma Placed.fits (h : Placed text k c) (hc : c ≠ []) : k + c.length ≤ text.length := by
  have hle := List.IsPrefix.length_le h
  have := length_pos_of_ne_nil hc
  rw [length_drop] at hle
  omega

lemma Placed.operand {v : BitVec 32} (h : Placed text k (dword v)) : operand text k 4 = some v := by
  have hfits : k + 4 ≤ text.length := h.fits (cons_ne_nil _ _)
  obtain ⟨rest, h⟩ := h
  rw [Finsh.operand, if_pos hfits, ← h, take_left' (length_dword v), leValue_dword]

/-! ## The stack -/

/-- The slots from the top down hold `xs`. -/
def Live (stack : Nat → BitVec 32) : List (BitVec 32) → Prop
  | [] => True
  | x :: xs => stack xs.length = x ∧ Live stack xs

lemma Live.update (h : Live stack xs) {n : Nat}
    (hn : xs.length ≤ n) (v : BitVec 32) : Live (Function.update stack n v) xs := by
  induction xs with
  | nil => trivial
  | cons x xs ih =>
    rw [length_cons] at hn
    refine ⟨?_, ih h.2 (by omega)⟩
    rw [Function.update_of_ne (by omega), h.1]

lemma Live.push (h : Live stack xs)
    (v : BitVec 32) : Live (Function.update stack xs.length v) (v :: xs) :=
  ⟨Function.update_self _ _ _, h.update le_rfl v⟩

/-! ## Runs of one instruction -/

/-- A machine at `k` with the live slots `xs` and the memory `m`. -/
structure Vm.Is (s : Vm) (k : Nat) (xs : List (BitVec 32)) (m : Mem) : Prop where
  pc : s.pc = k
  sp : s.sp = xs.length
  live : Live s.stack xs
  mem : s.mem = m

/-- From `k` with `xs` and `m` the machine runs to `k'` with `xs'` and `m'`. -/
def Block (functions : Functions) (text : List UInt8) (k : Nat) (xs : List (BitVec 32)) (m : Mem)
    (k' : Nat) (xs' : List (BitVec 32)) (m' : Mem) : Prop :=
  ∀ s : Vm, s.Is k xs m → ∃ s', Runs functions text s s' ∧ s'.Is k' xs' m'

variable {functions : Functions} {m : Mem} {w : Width}

section

variable {op : Op} {s s' : Vm} {x y : BitVec 32}

lemma Vm.Is.top (hs : s.Is k (x :: xs) m) : s.stack (s.sp - 1) = x := by
  rw [hs.sp]
  exact hs.live.1

lemma Vm.Is.second (hs : s.Is k (y :: x :: xs) m) : s.stack (s.sp - 2) = x := by
  rw [hs.sp]
  exact hs.live.2.1

variable (htext : text.length = finshTextMax) (hs : s.Is k xs m)

include htext hs

lemma runs_one (hop : Placed text k [op.code])
    (h : op.exec functions text { s with pc := k + 1 } = some s') : Runs functions text s s' := by
  have hlt : s.pc < finshTextMax := by
    rw [hs.pc, ← htext]
    exact hop.lt
  refine .single ⟨hlt, ?_⟩
  rw [Vm.step, hs.pc, hop.get]
  show (opTable[op.code.toNat]?.bind fun op => op.exec functions text _) = _
  rw [opTable_code, bind_some, h]

variable (hroom : xs.length < finshStackMax)

include hroom

lemma runs_push {n : Nat} (hop : Placed text k [op.code])
    (h : ∀ s : Vm, s.pc = k + 1 → s.mem = m →
      op.exec functions text s = { s with pc := s.pc + n }.push w x) :
    ∃ s' slot, Runs functions text s s' ∧ s'.Is (k + 1 + n) (w.put slot x :: xs) m := by
  have hpush := h { s with pc := k + 1 } rfl hs.mem
  rw [Vm.push, if_pos (by rw [← hs.sp] at hroom; exact hroom)] at hpush
  refine ⟨_, s.stack s.sp, runs_one htext hs hop hpush, rfl, ?_, ?_, hs.mem⟩
  · rw [hs.sp, length_cons]
  rw [hs.sp]
  exact hs.live.push _

lemma runs_ldValue (hop : Placed text k ((Op.ldValue w).code :: dword x)) :
    ∃ s' slot, Runs functions text s s' ∧
      s'.Is (k + 5) (w.put slot (BitVec.ofNat 32 (m.load x.toNat w.bytes)) :: xs) m := by
  rw [placed_cons] at hop
  refine runs_push (n := 4) htext hs hroom hop.1 fun s hpc hmem => ?_
  simp only [Op.exec, hpc, hmem, hop.2.operand, bind_eq_bind, bind_some]

end

/-! ## Blocks of code -/

namespace Block

section

variable {text : List UInt8} (htext : text.length = finshTextMax) {k : Nat} {xs : List (BitVec 32)}
  {v a : BitVec 32} {xs' : List (BitVec 32)} {k' k'' : Nat}

lemma refl : Block functions text k xs m k xs m := fun s hs => ⟨s, .refl, hs⟩

lemma trans {xs'' : List (BitVec 32)} {m' m'' : Mem}
    (h : Block functions text k xs m k' xs' m') (h' : Block functions text k' xs' m' k'' xs'' m'') :
    Block functions text k xs m k'' xs'' m'' := by
  intro s hs
  obtain ⟨s1, hrun, hs1⟩ := h s hs
  obtain ⟨s2, hrun', hs2⟩ := h' s1 hs1
  exact ⟨s2, hrun.trans hrun', hs2⟩

lemma ends {m' : Mem} (h : Block functions text k xs m k' xs' m') (hk : k' = k'') :
    Block functions text k xs m k'' xs' m' :=
  hk ▸ h

include htext

lemma one {op : Op} {k' : Nat} {m' : Mem} (hop : Placed text k [op.code])
    (h : ∀ s : Vm, s.Is (k + 1) xs m → ∃ s', op.exec functions text s = some s' ∧ s'.Is k' xs' m') :
    Block functions text k xs m k' xs' m' := by
  intro s hs
  obtain ⟨s', hexec, hs'⟩ := h { s with pc := k + 1 } ⟨rfl, hs.sp, hs.live, hs.mem⟩
  exact ⟨s', runs_one htext hs hop hexec, hs'⟩

lemma noop (hop : Placed text k [Op.noop.code]) : Block functions text k xs m (k + 1) xs m :=
  one htext hop fun s hs => ⟨s, rfl, hs⟩

lemma ld (hop : Placed text k ((Op.ld .dword).code :: dword v))
    (hroom : xs.length < finshStackMax) : Block functions text k xs m (k + 5) (v :: xs) m := by
  rw [placed_cons] at hop
  intro s hs
  obtain ⟨s', _, hrun, hs'⟩ := runs_push (n := 4) (w := .dword) (x := v) htext hs hroom hop.1
    fun s hpc _ => by simp only [Op.exec, hpc, Width.bytes, hop.2.operand, bind_eq_bind, bind_some]
  exact ⟨s', hrun, hs'⟩

lemma ldValue (hop : Placed text k ((Op.ldValue .dword).code :: dword a))
    (hroom : xs.length < finshStackMax) :
    Block functions text k xs m (k + 5) (BitVec.ofNat 32 (m.load a.toNat 4) :: xs) m := by
  intro s hs
  obtain ⟨s', _, hrun, hs'⟩ := runs_ldValue htext hs hroom hop
  exact ⟨s', hrun, hs'⟩

lemma bin {op : Arith} {b : BitVec 32} (hop : Placed text k [(Op.bin op w).code])
    (hv : op.eval (w.get a) (w.get b) = some v) :
    Block functions text k (b :: a :: xs) m (k + 1) (w.put a v :: xs) m := by
  refine one htext hop fun s hs => ?_
  refine ⟨{ s with stack := Function.update s.stack xs.length (w.put a v), sp := xs.length + 1 },
    ?_,
    hs.pc, rfl, hs.live.2.2.push _, hs.mem⟩
  simp only [Op.exec, hs.top, hs.second, hv]
  rw [hs.sp]
  rfl

lemma setTop {op : Op} (hop : Placed text k [op.code])
    (h : ∀ s : Vm, 1 ≤ s.sp → s.stack (s.sp - 1) = a → s.mem = m →
      op.exec functions text s = some (s.setTop .dword v)) :
    Block functions text k (a :: xs) m (k + 1) (v :: xs) m := by
  refine one htext hop fun s hs => ?_
  have hsp : s.sp - 1 = xs.length := by rw [hs.sp, length_cons, Nat.add_sub_cancel]
  have hpos : 1 ≤ s.sp := by rw [hs.sp, length_cons]; omega
  refine ⟨s.setTop .dword v, h s hpos hs.top hs.mem, hs.pc, hs.sp, ?_, hs.mem⟩
  rw [Vm.setTop, hsp]
  exact hs.live.2.push _

lemma bw (hop : Placed text k [(Op.bw .dword).code]) :
    Block functions text k (a :: xs) m (k + 1) (~~~a :: xs) m :=
  setTop htext hop fun s hpos ha _ => by simp only [Op.exec, if_pos hpos, Width.get, ha]

lemma ldValueStack (hop : Placed text k [(Op.ldValueStack .dword).code]) :
    Block functions text k (a :: xs) m (k + 1) (BitVec.ofNat 32 (m.load a.toNat 4) :: xs) m :=
  setTop htext hop fun s hpos ha hm => by simp only [Op.exec, if_pos hpos, Width.bytes, ha, hm]

lemma st (hop : Placed text k [(Op.st w).code]) : Block functions text k
    (v :: a :: xs) m (k + 1) (a :: xs) (m.store a.toNat w.bytes v.toNat) := by
  refine one htext hop fun s hs => ?_
  refine ⟨{ s with mem := m.store a.toNat w.bytes v.toNat, sp := xs.length + 1 }, ?_, hs.pc, rfl,
    hs.live.2, rfl⟩
  simp only [Op.exec, hs.top, hs.second, hs.mem]
  rw [hs.sp]
  rfl

lemma pop (hop : Placed text k [Op.pop.code]) :
    Block functions text k (v :: xs) m (k + 1) xs m := by
  refine one htext hop fun s hs => ?_
  have hsp : s.sp = xs.length + 1 := hs.sp
  refine ⟨{ s with sp := s.sp - 1 }, ?_, hs.pc, ?_, hs.live.2, hs.mem⟩
  · simp only [Op.exec, if_pos (show 1 ≤ s.sp by omega)]
  show s.sp - 1 = xs.length
  omega

lemma noops (n : Nat) (h : Placed text k (List.replicate n Op.noop.code)) :
    Block functions text k xs m (k + n) xs m := by
  induction n generalizing k with
  | zero => exact refl
  | succ n ih =>
    rw [replicate_succ, placed_cons] at h
    have hrest := (noop htext h.1).trans (ih h.2)
    rwa [add_assoc, add_comm 1] at hrest

end

lemma finshVmRun_eq {functions : Functions} {text : List UInt8} {xs : List (BitVec 32)} {m : Mem}
    {s : Vm} (h : Block functions text 0 [] s.mem finshTextMax xs m) :
    ∃ s', finshVmRun functions text s = some s' ∧ s'.Is finshTextMax xs m := by
  obtain ⟨s', hrun, hs'⟩ := h { s with sp := 0, pc := 0 } ⟨rfl, rfl, trivial, rfl⟩
  exact ⟨s', vmLoop_of_runs hrun (by rw [hs'.pc]) finshTextMax (by omega), hs'⟩

end Block

end NbIot.Finsh
