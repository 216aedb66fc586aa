import NbIot.Finsh.Correct

/-! # The operators `++` and `--`

The code takes the address of the operand from `id.var`. That is the variable for a user variable,
but the entry of the table for a system variable, whose `var` is not looked at.
-/

namespace NbIot.Finsh

open Function List Option

/-! ## Values of a width -/

/-- The member of a slot, without its sign. -/
def Width.low (w : Width) (x : BitVec 32) : Nat := x.toNat % 256 ^ w.bytes

/-- What `++` or `--` makes of a value. -/
def Step.next (op : Step) (w : Width) (v : Nat) : Nat :=
  match op with
  | inc => (v + 1) % 256 ^ w.bytes
  | dec => (v + (256 ^ w.bytes - 1)) % 256 ^ w.bytes

/-- The memory after `++` or `--` on the variable at `a`. -/
def Step.update (op : Step) (w : Width) (a : BitVec 32) (m : Mem) : Mem :=
  m.store a.toNat w.bytes (op.next w (m.load a.toNat w.bytes))

variable {w : Width} {x y : BitVec 32}

lemma low_put (slot x : BitVec 32) : w.low (w.put slot x) = w.low x := by
  have hmask (a b c n : Nat) (hc : c % 2 ^ n = 0) :
      (a &&& c ||| b &&& (2 ^ n - 1)) % 2 ^ n = b % 2 ^ n := by
    rw [Nat.or_mod_two_pow, Nat.and_mod_two_pow, hc, Nat.and_zero, Nat.zero_or,
      Nat.and_two_pow_sub_one_eq_mod, Nat.mod_mod]
  cases w with
  | byte => exact hmask slot.toNat x.toNat 0xffffff00 8 rfl
  | word => exact hmask slot.toNat x.toNat 0xffff0000 16 rfl
  | dword => rfl

lemma low_get (x : BitVec 32) : w.low (w.get x) = w.low x := by
  cases w with
  | byte | word =>
    simp only [Width.low, Width.get, Width.bytes, BitVec.toNat_signExtend, BitVec.toNat_setWidth]
    split <;> omega
  | dword => rfl

lemma low_step (op : Step) (hy : w.low y = 1) :
    ∃ r, op.arith.eval (w.get x) (w.get y) = some r ∧ w.low r = op.next w (w.low x) := by
  rw [← low_get y] at hy
  rw [← low_get x]
  generalize w.get x = x at *
  generalize w.get y = y at *
  cases op with
  | inc =>
    refine ⟨_, rfl, ?_⟩
    cases w <;> simp only [Width.low, Step.next, Width.bytes, BitVec.toNat_add] at * <;> omega
  | dec =>
    refine ⟨_, rfl, ?_⟩
    cases w <;> simp only [Width.low, Step.next, Width.bytes, BitVec.toNat_sub] at * <;> omega

lemma store_mod (m : Mem) (a n v : Nat) : m.store a n (v % 256 ^ n) = m.store a n v := by
  unfold Mem.store
  funext x
  split
  · apply UInt8.toNat_inj.mp
    obtain ⟨k, hk⟩ : ∃ k, n = x - a + (k + 1) := ⟨n - (x - a) - 1, by omega⟩
    simp only [UInt8.toNat_ofNat']
    rw [hk, Nat.pow_add, Nat.mod_mul_right_div_self, Nat.pow_succ', Nat.mod_mul_right_mod]
  rfl

lemma load_mod (m : Mem) (a n k : Nat) : m.load a (n + k) % 256 ^ n = m.load a n := by
  induction n generalizing a with
  | zero => rw [Nat.pow_zero, Nat.mod_one, Mem.load]
  | succ n ih =>
    have hb := (m a).toNat_lt
    have hdiv : ((m a).toNat + 256 * m.load (a + 1) (n + k)) / 256 = m.load (a + 1) (n + k) := by
      omega
    rw [add_right_comm, Mem.load, Mem.load, ← ih (a + 1), Nat.pow_succ', Nat.mod_mul, hdiv]
    omega

lemma low_load (m : Mem) (a n : Nat) (hn : w.bytes + n ≤ 4) :
    w.low (BitVec.ofNat 32 (m.load a (w.bytes + n))) = m.load a w.bytes := by
  have hle : 256 ^ (w.bytes + n) ≤ 256 ^ 4 := Nat.pow_le_pow_right (by decide) hn
  have hlt : m.load a (w.bytes + n) < 2 ^ 32 := (m.load_lt a _).trans_le hle
  rw [Width.low, BitVec.toNat_ofNat, Nat.mod_eq_of_lt hlt, load_mod]

/-! ## The instructions -/

lemma Placed.one {text : List UInt8} {k : Nat} (h : Placed text k w.one) :
    Finsh.operand text k w.bytes = some 1 := by
  have hlen : w.one.length = w.bytes := by cases w <;> rfl
  have hfits := h.fits (by cases w <;> exact cons_ne_nil _ _)
  obtain ⟨rest, h⟩ := h
  rw [Finsh.operand, if_pos (by omega), ← h, take_left' hlen]
  cases w <;> rfl

/-- The machine runs to `k` and has pushed a value, of which one member is known. -/
def Pushes (functions : Functions) (text : List UInt8) (s : Vm) (k : Nat) (w : Width) (v : Nat)
    (xs : List (BitVec 32)) (m : Mem) : Prop :=
  ∃ s' x, Runs functions text s s' ∧ s'.Is k (x :: xs) m ∧ w.low x = v

section

variable {functions : Functions} {text : List UInt8} (htext : text.length = finshTextMax)
variable {k : Nat} {xs : List (BitVec 32)} {m : Mem} {a b : BitVec 32} {s : Vm}

include htext

lemma pushes_ldValue (hs : s.Is k xs m) (hop : Placed text k ((Op.ldValue w).code :: dword a))
    (hroom : xs.length < finshStackMax) :
    Pushes functions text s (k + 5) w (m.load a.toNat w.bytes) xs m := by
  obtain ⟨s', slot, hrun, hs'⟩ := runs_ldValue htext hs hroom hop
  refine ⟨s', _, hrun, hs', (low_put slot _).trans ?_⟩
  exact low_load m _ 0 (by cases w <;> decide)

lemma pushes_one (hs : s.Is k xs m) (hop : Placed text k ((Op.ld w).code :: w.one))
    (hroom : xs.length < finshStackMax) :
    Pushes functions text s (k + (w.one.length + 1)) w 1 xs m := by
  have hlen : k + (w.one.length + 1) = k + 1 + w.bytes := by cases w <;> rfl
  rw [placed_cons] at hop
  obtain ⟨s', slot, hrun, hs'⟩ := runs_push (x := 1) htext hs hroom hop.1 fun s hpc _ => by
    simp only [Op.exec, hpc, hop.2.one, bind_eq_bind, bind_some]
    rfl
  exact ⟨s', _, hrun, hlen ▸ hs', (low_put slot 1).trans (by cases w <;> rfl)⟩

lemma pushes_bin (op : Step) (hs : s.Is k (y :: x :: xs) m)
    (hop : Placed text k [(Op.bin op.arith w).code]) (hy : w.low y = 1) :
    Pushes functions text s (k + 1) w (op.next w (w.low x)) xs m := by
  obtain ⟨r, hr, hlow⟩ := low_step (x := x) op hy
  obtain ⟨s', hrun, hs'⟩ := Block.bin htext hop hr s hs
  exact ⟨s', _, hrun, hs', (low_put x r).trans hlow⟩

lemma runs_update (op : Step) (hs : s.Is k (a :: xs) m) (hroom : xs.length + 3 ≤ finshStackMax)
    (hvalue : Placed text k ((Op.ldValue w).code :: dword a))
    (hone : Placed text (k + 5) ((Op.ld w).code :: w.one))
    (hbin : Placed text (k + 5 + (w.one.length + 1)) [(Op.bin op.arith w).code])
    (hst : Placed text (k + 5 + (w.one.length + 1) + 1) [(Op.st w).code]) :
    ∃ s', Runs functions text s s' ∧ s'.Is (k + 5 + (w.one.length + 1) + 1 + 1) (a :: xs)
      (op.update w a m) := by
  obtain ⟨s1, x, hrun1, hs1, hx⟩ := pushes_ldValue htext hs hvalue (by simp; omega)
  obtain ⟨s2, y, hrun2, hs2, hy⟩ := pushes_one htext hs1 hone (by simp; omega)
  obtain ⟨s3, z, hrun3, hs3, hz⟩ := pushes_bin htext op hs2 hbin hy
  obtain ⟨s4, hrun4, hs4⟩ := Block.st htext hst s3 hs3
  rw [← store_mod, show z.toNat % _ = _ from hz, hx] at hs4
  exact ⟨s4, ((hrun1.trans hrun2).trans hrun3).trans hrun4, hs4⟩

lemma pushes_post (op : Step) (hs : s.Is 0 [] m)
    (hp : Placed text 0 (((Op.ldValue w).code :: dword a) ++ postCode op.arith w b)) :
    Pushes functions text s (5 + 5 + 5 + (w.one.length + 1) + 1 + 1 + 1) w
      (m.load a.toNat w.bytes) [] (op.update w b m) := by
  simp only [postCode, append_assoc, placed_append] at hp
  rw [placed_cons (c := [_, _]), placed_cons (c := [_])] at hp
  obtain ⟨hfirst, haddr, hvalue, hone, hbin, hst, hpop⟩ := hp
  obtain ⟨s1, x, hrun1, hs1, hx⟩ := pushes_ldValue htext hs hfirst (by decide)
  obtain ⟨s2, hrun2, hs2⟩ := Block.ld htext haddr (by simp; decide) s1 hs1
  obtain ⟨s3, hrun3, hs3⟩ := runs_update htext op hs2 (by simp; decide) hvalue hone hbin hst
  obtain ⟨s4, hrun4, hs4⟩ := Block.pop htext hpop s3 hs3
  exact ⟨s4, x, ((hrun1.trans hrun2).trans hrun3).trans hrun4, hs4, hx⟩

lemma pushes_pre (op : Step) (hs : s.Is 0 [] m)
    (hp : Placed text 0 (ldCode a ++ preCode op.arith w a)) :
    Pushes functions text s (5 + 5 + (w.one.length + 1) + 1 + 1 + 1) w
      (op.next w (m.load a.toNat w.bytes)) [] (op.update w a m) := by
  simp only [preCode, append_assoc, placed_append] at hp
  rw [placed_cons (c := [_, _]), placed_cons (c := [_])] at hp
  obtain ⟨haddr, hvalue, hone, hbin, hst, hload⟩ := hp
  obtain ⟨s1, hrun1, hs1⟩ := Block.ld htext haddr (by decide) s hs
  obtain ⟨s2, hrun2, hs2⟩ := runs_update htext op hs1 (by decide) hvalue hone hbin hst
  obtain ⟨s3, hrun3, hs3⟩ := Block.ldValueStack htext hload s2 hs2
  refine ⟨s3, _, (hrun1.trans hrun2).trans hrun3, hs3, ?_⟩
  -- the low bytes of the four that are loaded
  obtain ⟨n, hn⟩ : ∃ n, w.bytes + n = 4 := ⟨4 - w.bytes, by cases w <;> rfl⟩
  rw [← hn, low_load _ _ _ hn.le, Step.update, Mem.load_store]
  cases op <;> exact Nat.mod_mod _ _

end

/-! ## The code for an identifier -/

/-- The width of the integer types. -/
def FinshType.integer : FinshType → Option Width
  | .char | .uchar => some .byte
  | .short | .ushort => some .word
  | .int | .uint | .long | .ulong => some .dword
  | _ => none

/-- An identifier, with the type and the address of the variable it names. -/
inductive Names (G : Globals) : BitVec 8 → Id → FinshType → BitVec 32 → Prop
  | user (i : Nat) : Names G idtypeVar (.var i) (G.type i) (G.value (.var i))
  | system (v : Sysvar) : Names G idtypeSysvar (.sysvar v) v.type v.var

def stepTree (pre : Bool) (op : Step) (idtype : BitVec 8) (id : Id) : Tree :=
  .node { nodeType := if pre then op.preType else op.postType }
    (.node { nodeType := .id, idtype := idtype, id := id } .nil .nil) .nil

def stepCodes (pre : Bool) (op : Step) (w : Width) (a b : BitVec 32) : List UInt8 :=
  if pre then ldCode a ++ preCode op.arith w b
  else ((Op.ldValue w).code :: dword a) ++ postCode op.arith w b

lemma compile_step {G : Globals} {idtype : BitVec 8} {id : Id} {type : FinshType} {a : BitVec 32}
    (h : Names G idtype id type a) (ht : type.integer = some w) (pre : Bool) (op : Step) :
    finshCompilerRun G (stepTree pre op idtype id) =
      some (stepCodes pre op w a (G.value id), none) := by
  have hw : type.width = some w := by cases type <;> first | exact ht | cases ht
  obtain ⟨d, hd, hdw⟩ : ∃ d, type.dataType = some d ∧ dataWidth d = some w := by
    cases type <;> first | exact ⟨_, rfl, ht⟩ | cases ht
  cases h <;> cases pre <;> cases op <;>
    simp [finshCompilerRun, stepTree, stepCodes, finshTypeCheck, childAddr, leafType, hd, hw, hdw,
      compileStatements, finshCompile, nodeCode, idCode, loadCode, stepCode, Step.preType,
      Step.postType, Step.arith, ldCode, idtypeVar, idtypeSysvar, idtypeSyscall, idtypeAddress]

/-! ## The law -/

/-- The run of the code ends, with one value on the stack. -/
def Leaves (functions : Functions) (code : List UInt8) (s : Vm) (w : Width) (v : Nat) (m : Mem) :
    Prop :=
  ∃ s' x, finshVmRun functions (segment code) s = some s' ∧ s'.Is finshTextMax [x] m ∧ w.low x = v

lemma leaves {functions : Functions} {code : List UInt8} {s : Vm} {m : Mem} {v n : Nat}
    (hn : code.length = n) (hfit : n ≤ finshTextMax)
    (h : ∀ text : List UInt8, text.length = finshTextMax → Placed text 0 code →
      Pushes functions text { s with sp := 0, pc := 0 } n w v [] m) :
    Leaves functions code s w v m := by
  subst hn
  have htext := length_segment hfit
  have hplaced : Placed (segment code) 0 (segment code) := prefix_refl _
  nth_rewrite 2 [segment] at hplaced
  rw [placed_append, zero_add] at hplaced
  obtain ⟨s1, x, hrun, hs1, hx⟩ := h _ htext hplaced.1
  obtain ⟨s2, hrun2, hs2⟩ := Block.noops htext _ hplaced.2 s1 hs1
  rw [Nat.add_sub_cancel' hfit] at hs2
  exact ⟨s2, x, vmLoop_of_runs (hrun.trans hrun2) hs2.pc.ge finshTextMax (by omega), hs2, hx⟩

/-- The law: whatever the stack held, the variable at `a` is changed by one in its width, nothing
else is, and the old or the new value is the only one on the stack. -/
def StepLaw (G : Globals) (idtype : BitVec 8) (id : Id) (a : BitVec 32) (w : Width) : Prop :=
  ∀ (pre : Bool) (op : Step) (functions : Functions) (s : Vm), ∃ code,
    finshCompilerRun G (stepTree pre op idtype id) = some (code, none) ∧ Leaves functions code s w
        (if pre then op.next w (s.mem.load a.toNat w.bytes) else s.mem.load a.toNat w.bytes)
        (op.update w a s.mem)

variable {G : Globals} {idtype : BitVec 8} {id : Id} {type : FinshType} {a : BitVec 32}

lemma leaves_post (op : Step) (a b : BitVec 32) (functions : Functions) (s : Vm) :
    Leaves functions (stepCodes false op w a b) s w (s.mem.load a.toNat w.bytes)
      (op.update w b s.mem) :=
  leaves (by cases w <;> rfl) (by cases w <;> decide) fun _ htext hp =>
    pushes_post htext op ⟨rfl, rfl, trivial, rfl⟩ hp

lemma leaves_pre (op : Step) (a : BitVec 32) (functions : Functions) (s : Vm) :
    Leaves functions (stepCodes true op w a a) s w (op.next w (s.mem.load a.toNat w.bytes))
      (op.update w a s.mem) :=
  leaves (by cases w <;> rfl) (by cases w <;> decide) fun _ htext hp =>
    pushes_pre htext op ⟨rfl, rfl, trivial, rfl⟩ hp

/-- **Increment and decrement** work on the operand, and on nothing else, exactly if the address in
`id.var` is that of the variable. For user variables it is. -/
theorem step_iff (h : Names G idtype id type a) (ht : type.integer = some w) :
    StepLaw G idtype id a w ↔ G.value id = a := by
  constructor
  · intro hlaw
    by_contra hne
    -- a variable that is zero becomes one, at its first byte
    obtain ⟨m, hm⟩ : ∃ m : Mem, ∀ a, m a = 0 := ⟨fun _ => 0, fun _ => rfl⟩
    have hzero : ∀ n a, m.load a n = 0 := by
      intro n
      induction n with
      | zero => exact fun _ => by rw [Mem.load]
      | succ n ih => exact fun a => by rw [Mem.load, hm, ih]; rfl
    obtain ⟨code, hcode, s', x, hrun, hs', -⟩ := hlaw false .inc (fun _ _ _ => none)
      ⟨fun _ => 0, 0, 0, m⟩
    rw [compile_step h ht] at hcode
    cases hcode
    obtain ⟨s₁, y, hrun₁, hs₁, -⟩ := leaves_post (w := w) .inc a (G.value id) (fun _ _ _ => none)
      ⟨fun _ => 0, 0, 0, m⟩
    cases hrun.symm.trans hrun₁
    have hmem := congrFun (hs'.mem.symm.trans hs₁.mem) a.toNat
    have hone : Step.inc.next w 0 = 1 := by cases w <;> rfl
    have hpos : 0 < w.bytes := by cases w <;> decide
    have hab : (G.value id).toNat ≠ a.toNat := fun he => hne (BitVec.eq_of_toNat_eq he)
    simp only [Step.update, hzero, hone] at hmem
    unfold Mem.store at hmem
    rw [if_pos (by omega), Nat.sub_self] at hmem
    split at hmem
    · have hlt : 1 < 256 ^ (a.toNat - (G.value id).toNat) := Nat.one_lt_pow (by omega) (by decide)
      rw [Nat.div_eq_of_lt hlt] at hmem
      cases hmem
    cases hmem.trans (hm _)
  intro hb pre op functions s
  have hcode := compile_step h ht pre op
  rw [hb] at hcode
  cases pre with
  | false => exact ⟨_, hcode, leaves_post op a a functions s⟩
  | true => exact ⟨_, hcode, leaves_pre op a functions s⟩

theorem step_iff_int : StepLaw oneVariable idtypeVar (.var 0) (oneVariable.value (.var 0)) .dword :=
  (step_iff (.user 0) rfl).mpr rfl

/-- `x++` for a system variable at `0x3000`, with its table entry at `0x1000`: the variable stays as
it is, and the byte 20 behind the entry is incremented. -/
theorem sysvar_not_incremented : ((finshCompilerRun ⟨0x2000, []⟩ (stepTree false .inc idtypeSysvar
        (.sysvar ⟨[0x78], .int, 0x3000, 0x1000⟩))).bind fun c =>
      finshVmRun (fun _ _ _ => none) (segment c.1) ⟨fun _ => 0, 0, 0, fun _ => 0⟩).map
        (fun s => (s.mem 0x3000, s.mem 0x1014)) = some (0, 1) := by
  decide +kernel

end NbIot.Finsh
