import NbIot.Basic.Memory
import NbIot.Finsh.Node

/-! # The virtual machine of finsh

`finsh_vm.c` and `finsh_ops.c`: a stack machine that runs the bytes of `text_segment`. A slot of the
stack is a union of a `char`, a `short` and a `long`, that is, a 32-bit word of which the narrower
members are the low bytes; an operation on a narrow member leaves the other bytes of the slot as
they are. Values are signed, and narrow ones are promoted to 32 bits before an operation.

An operation that has no defined result stops the machine (`none`):
an access outside the stack or the text, an opcode that is not in the table, a division by zero or
with overflow, a shift by a count outside 0 to 31.
-/

namespace NbIot.Finsh

open Function Option

/-! ## Widths and instructions -/

def finshTextMax : Nat := 128

def finshStackMax : Nat := 64

inductive Width where
  | byte | word | dword
  deriving DecidableEq

def Width.bytes : Width → Nat
  | byte => 1
  | word => 2
  | dword => 4

def Width.get : Width → BitVec 32 → BitVec 32
  | byte, x => (x.setWidth 8).signExtend 32
  | word, x => (x.setWidth 16).signExtend 32
  | dword, x => x

def Width.put : Width → BitVec 32 → BitVec 32 → BitVec 32
  | byte, slot, x => slot &&& 0xffffff00#32 ||| x &&& 0xff#32
  | word, slot, x => slot &&& 0xffff0000#32 ||| x &&& 0xffff#32
  | dword, _, x => x

/-- The operators of `OP_BIN_BYTE`, `OP_BIN_WORD` and `OP_BIN_DWORD`. -/
inductive Arith where
  | add | sub | div | mod | mul | and | or | xor | shl | shr
  deriving DecidableEq

def Divides (a b : BitVec 32) : Prop := b ≠ 0 ∧ ¬ (a = BitVec.intMin 32 ∧ b = -1)
  deriving Decidable

def Arith.eval : Arith → BitVec 32 → BitVec 32 → Option (BitVec 32)
  | add, a, b => some (a + b)
  | sub, a, b => some (a - b)
  | div, a, b => if Divides a b then some (a.sdiv b) else none
  | mod, a, b => if Divides a b then some (a.srem b) else none
  | mul, a, b => some (a * b)
  | and, a, b => some (a &&& b)
  | or, a, b => some (a ||| b)
  | xor, a, b => some (a ^^^ b)
  | shl, a, b => if b.toNat < 32 then some (a <<< b.toNat) else none
  | shr, a, b => if b.toNat < 32 then some (a.sshiftRight b.toNat) else none

inductive Op where
  | noop
  | bin (op : Arith) (w : Width)
  | bw (w : Width)
  | ld (w : Width)
  | ldValue (w : Width)
  | st (w : Width)
  | pop
  | call
  | ldValueStack (w : Width)
  deriving DecidableEq

/-! ## Codes -/

def opTable : List Op :=
  [.noop, .bin .add .byte, .bin .add .word, .bin .add .dword, .bin .sub .byte, .bin .sub .word,
    .bin .sub .dword, .bin .div .byte, .bin .div .word, .bin .div .dword, .bin .mod .byte,
    .bin .mod .word, .bin .mod .dword, .bin .mul .byte, .bin .mul .word, .bin .mul .dword,
    .bin .and .byte, .bin .and .word, .bin .and .dword, .bin .or .byte, .bin .or .word,
    .bin .or .dword, .bin .xor .byte, .bin .xor .word, .bin .xor .dword, .bw .byte, .bw .word,
    .bw .dword, .bin .shl .byte, .bin .shl .word, .bin .shl .dword, .bin .shr .byte,
    .bin .shr .word, .bin .shr .dword, .ld .byte, .ld .word, .ld .dword, .ldValue .byte,
    .ldValue .word, .ldValue .dword, .st .byte, .st .word, .st .dword, .pop, .call,
    .ldValueStack .byte, .ldValueStack .word, .ldValueStack .dword]

def Width.index : Width → UInt8
  | byte => 0
  | word => 1
  | dword => 2

/-- `FINSH_OP_*_BYTE` of an operator. -/
def Arith.first : Arith → UInt8
  | add => 0x01
  | sub => 0x04
  | div => 0x07
  | mod => 0x0A
  | mul => 0x0D
  | and => 0x10
  | or => 0x13
  | xor => 0x16
  | shl => 0x1C
  | shr => 0x1F

/-- `FINSH_OP_*`. -/
def Op.code : Op → UInt8
  | noop => 0x00
  | bin op w => op.first + w.index
  | bw w => 0x19 + w.index
  | ld w => 0x22 + w.index
  | ldValue w => 0x25 + w.index
  | st w => 0x28 + w.index
  | pop => 0x2B
  | call => 0x2C
  | ldValueStack w => 0x2D + w.index

lemma opTable_code (op : Op) : opTable[op.code.toNat]? = some op := by
  cases op with
  | bin op w => cases op <;> cases w <;> decide
  | bw w => cases w <;> decide
  | ld w => cases w <;> decide
  | ldValue w => cases w <;> decide
  | st w => cases w <;> decide
  | ldValueStack w => cases w <;> decide
  | noop => decide
  | pop => decide
  | call => decide

/-! ## Operands -/

/-- The value of bytes in little-endian order: `FINSH_GET16`, `FINSH_GET32`. -/
def leValue : List UInt8 → Nat
  | [] => 0
  | b :: l => b.toNat + 256 * leValue l

/-- `FINSH_SET32`. -/
def dword (v : BitVec 32) : List UInt8 :=
  [UInt8.ofNat v.toNat, UInt8.ofNat (v.toNat / 256), UInt8.ofNat (v.toNat / 65536),
    UInt8.ofNat (v.toNat / 16777216)]

@[simp] lemma length_dword (v : BitVec 32) : (dword v).length = 4 := rfl

lemma leValue_dword (v : BitVec 32) : BitVec.ofNat 32 (leValue (dword v)) = v := by
  apply BitVec.eq_of_toNat_eq
  simp only [dword, leValue, BitVec.toNat_ofNat, UInt8.toNat_ofNat']
  omega

/-- The operand of `n` bytes at `pc`. -/
def operand (text : List UInt8) (pc n : Nat) : Option (BitVec 32) :=
  if pc + n ≤ text.length then some (BitVec.ofNat 32 (leValue ((text.drop pc).take n))) else none

/-! ## The machine -/

/-- `finsh_vm_stack`, `finsh_sp` and `finsh_pc` as indices, and the memory. -/
structure Vm where
  stack : Nat → BitVec 32
  sp : Nat
  pc : Nat
  mem : Mem

/-- The exported functions: what the function at an address does with its arguments. -/
abbrev Functions : Type := BitVec 32 → List (BitVec 32) → Mem → Option (BitVec 32 × Mem)

/-- A value stored to a member of the slot at `finsh_sp`, which moves up. -/
def Vm.push (s : Vm) (w : Width) (x : BitVec 32) : Option Vm :=
  if s.sp < finshStackMax then
    some { s with stack := update s.stack s.sp (w.put (s.stack s.sp) x), sp := s.sp + 1 }
  else none

def Vm.setTop (s : Vm) (w : Width) (x : BitVec 32) : Vm :=
  { s with stack := update s.stack (s.sp - 1) (w.put (s.stack (s.sp - 1)) x) }

/-- `OP_call`, with at most 16 arguments: the function is below its arguments, and the result takes
its place. -/
def Vm.call (functions : Functions) (text : List UInt8) (s : Vm) : Option Vm := do
  let n ← text[s.pc]?
  let n := n.toNat
  if n + 1 ≤ s.sp ∧ n ≤ 16 then
    let args := (List.range n).map fun i => s.stack (s.sp - n + i)
    let (r, mem) ← functions (s.stack (s.sp - n - 1)) args s.mem
    some { stack := update s.stack (s.sp - n - 1) r
           sp := s.sp - n
           pc := s.pc + 1
           mem := mem }
  else none

/-- One operation, with `finsh_pc` behind the opcode. -/
def Op.exec (functions : Functions) (text : List UInt8) (s : Vm) : Op → Option Vm
  | .noop => some s
  | .bin op w =>
    if 2 ≤ s.sp then do
      let a := s.stack (s.sp - 2)
      let r ← op.eval (w.get a) (w.get (s.stack (s.sp - 1)))
      some { s with stack := update s.stack (s.sp - 2) (w.put a r), sp := s.sp - 1 }
    else none
  | .bw w => if 1 ≤ s.sp then some (s.setTop w (~~~(w.get (s.stack (s.sp - 1))))) else none
  | .ld w => do
    let x ← operand text s.pc w.bytes
    { s with pc := s.pc + w.bytes }.push w x
  | .ldValue w => do
    let a ← operand text s.pc 4
    { s with pc := s.pc + 4 }.push w (BitVec.ofNat 32 (s.mem.load a.toNat w.bytes))
  | .st w =>
    if 2 ≤ s.sp then
      some { s with
        mem := s.mem.store (s.stack (s.sp - 2)).toNat w.bytes (s.stack (s.sp - 1)).toNat
        sp := s.sp - 1 }
    else none
  | .pop => if 1 ≤ s.sp then some { s with sp := s.sp - 1 } else none
  | .call => s.call functions text
  | .ldValueStack w =>
    if 1 ≤ s.sp then
      some (s.setTop w (BitVec.ofNat 32 (s.mem.load (s.stack (s.sp - 1)).toNat w.bytes)))
    else none

/-- One turn of the loop of `finsh_vm_run`. -/
def Vm.step (functions : Functions) (text : List UInt8) (s : Vm) : Option Vm := do
  let b ← text[s.pc]?
  let op ← opTable[b.toNat]?
  op.exec functions text { s with pc := s.pc + 1 }

/-- The loop of `finsh_vm_run`, for at most `n` turns. -/
def vmLoop (functions : Functions) (text : List UInt8) : Nat → Vm → Option Vm
  | 0, s => some s
  | n + 1, s => if s.pc < finshTextMax then (s.step functions text).bind (vmLoop functions text n)
      else some s

/-- `finsh_vm_run`. Every turn moves `finsh_pc` up, so there are at most as many turns as bytes. -/
def finshVmRun (functions : Functions) (text : List UInt8) (s : Vm) : Option Vm :=
  vmLoop functions text finshTextMax { s with sp := 0, pc := 0 }

/-! ## Runs -/

section

variable {functions : Functions} {text : List UInt8} {s s' : Vm}

lemma pc_exec {op : Op} (h : op.exec functions text s = some s') : s.pc ≤ s'.pc := by
  cases op with
  | noop =>
    obtain rfl : s = s' := by simpa [Op.exec] using h
    exact le_rfl
  | bin op w =>
    simp only [Op.exec] at h
    split at h
    · obtain ⟨r, -, h⟩ := bind_eq_some_iff.mp h
      cases h
      exact le_rfl
    cases h
  | bw w | ldValueStack w =>
    simp only [Op.exec] at h
    split at h
    · cases h
      exact le_rfl
    cases h
  | ld w | ldValue w =>
    obtain ⟨x, -, h⟩ := bind_eq_some_iff.mp h
    simp only [Vm.push] at h
    split at h
    · cases h
      exact Nat.le_add_right _ _
    cases h
  | st w | pop =>
    simp only [Op.exec] at h
    split at h
    · cases h
      exact le_rfl
    cases h
  | call =>
    obtain ⟨b, -, h⟩ := bind_eq_some_iff.mp h
    dsimp only at h
    split at h
    · obtain ⟨r, -, h⟩ := bind_eq_some_iff.mp h
      cases h
      exact Nat.le_add_right _ _
    cases h

lemma pc_step (h : s.step functions text = some s') : s.pc < s'.pc := by
  obtain ⟨b, -, h⟩ := bind_eq_some_iff.mp h
  obtain ⟨op, -, h⟩ := bind_eq_some_iff.mp h
  have := pc_exec h
  dsimp only at this
  omega

def Next (functions : Functions) (text : List UInt8) (s s' : Vm) : Prop :=
  s.pc < finshTextMax ∧ s.step functions text = some s'

abbrev Runs (functions : Functions) (text : List UInt8) : Vm → Vm → Prop :=
  Relation.ReflTransGen (Next functions text)

lemma vmLoop_of_runs (h : Runs functions text s s') (hend : finshTextMax ≤ s'.pc)
    (n : Nat) (hn : finshTextMax ≤ s.pc + n) : vmLoop functions text n s = some s' := by
  induction h using Relation.ReflTransGen.head_induction_on generalizing n with
  | refl =>
    cases n with
    | zero => rfl
    | succ n => rw [vmLoop, if_neg (by omega)]
  | head hnext _ ih =>
    have hpc := pc_step hnext.2
    obtain ⟨n, rfl⟩ : ∃ m, n = m + 1 := ⟨n - 1, by have := hnext.1; omega⟩
    rw [vmLoop, if_pos hnext.1, hnext.2]
    exact ih n (by omega)

end

end NbIot.Finsh
