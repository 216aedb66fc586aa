import NbIot.Finsh.Token

/-! # Nodes and symbols of finsh

`finsh_node.c`, `finsh_var.c` and the symbol tables. The nodes of a line are entries of one table of
16; a pointer to a node is an index, and `RT_NULL` is `none`. A line is parsed into a tree in which
a node points to its first child and to its next sibling. `Tree` is such a tree on its own, and
`Built` says that a part of the table is the tree below a node.
-/

namespace NbIot.Finsh

/-! ## Variables and symbols -/

def finshNameMax : Nat := 16

def finshNodeMax : Nat := 16

def finshVariableMax : Nat := 8

inductive FinshType where
  | unknown | void | voidp | char | uchar | charp | short | ushort | shortp | int | uint | intp
  | long | ulong | longp
  deriving DecidableEq, Repr

def FinshType.toNat : FinshType → Nat
  | .unknown => 0
  | .void => 1
  | .voidp => 2
  | .char => 3
  | .uchar => 4
  | .charp => 5
  | .short => 6
  | .ushort => 7
  | .shortp => 8
  | .int => 9
  | .uint => 10
  | .intp => 11
  | .long => 12
  | .ulong => 13
  | .longp => 14

/-- `struct finsh_var` without its value, which is in memory. -/
structure Var where
  name : List UInt8 := []
  type : FinshType := .unknown
  deriving DecidableEq

/-- `struct finsh_sysvar`; `self` is the address of the structure. -/
structure Sysvar where
  name : List UInt8
  type : FinshType
  var : BitVec 32
  self : BitVec 32
  deriving DecidableEq

/-- `struct finsh_syscall`; `self` is the address of the structure. -/
structure Syscall where
  name : List UInt8
  func : BitVec 32
  self : BitVec 32
  deriving DecidableEq

/-- The symbols that are not user variables: the tables of the linker and the lists appended to at
run time. -/
structure Symbols where
  sysvarTable : List Sysvar := []
  sysvarList : List Sysvar := []
  syscallTable : List Syscall := []
  syscallList : List Syscall := []

/-- `strncmp(a, b, n) == 0`. -/
def sameUpTo (n : Nat) (a b : List UInt8) : Bool := a.take n == b.take n

def finshVarLookup (vars : List Var) (name : List UInt8) : Option Nat :=
  vars.findIdx? fun v => sameUpTo finshNameMax v.name name

/-- `finsh_var_insert`; `none` is the result -1. -/
def finshVarInsert (vars : List Var) (name : List UInt8) (type : FinshType) : Option (List Var) :=
  if vars.any fun v => sameUpTo finshNameMax v.name name then none
  else
    (vars.findIdx? fun v => v.type = .unknown).map fun i =>
      vars.modify i fun v => { v with name := name.take finshNameMax, type := type }

/-- `finsh_sysvar_lookup`. In the list a name is found by its first characters. -/
def finshSysvarLookup (symbols : Symbols) (name : List UInt8) : Option Sysvar :=
  (symbols.sysvarTable.find? fun v => v.name == name) <|>
    symbols.sysvarList.find? fun v => sameUpTo name.length v.name name

def finshSyscallLookup (symbols : Symbols) (name : List UInt8) : Option Syscall :=
  (symbols.syscallTable.find? fun c => c.name == name) <|>
    symbols.syscallList.find? fun c => sameUpTo name.length c.name name

/-! ## The node table -/

/-- The node types of `finsh_node.h`. -/
inductive NodeType where
  | unknown | id | valueChar | valueInt | valueLong | valueString | valueNull
  | add | sub | mul | div | mod | and | or | xor | bitwise | shl | shr | func | assign | cast
  | preinc | predec | inc | dec | getvalue | getaddr | null
  deriving DecidableEq, Repr

/-- The union `id` of a node. A user variable is its index in the table. -/
inductive Id where
  | none
  | var (i : Nat)
  | sysvar (v : Sysvar)
  | syscall (c : Syscall)
  deriving DecidableEq

/-- `FINSH_IDTYPE_*`. -/
def idtypeVar : BitVec 8 := 0x01
def idtypeSysvar : BitVec 8 := 0x02
def idtypeSyscall : BitVec 8 := 0x04
def idtypeAddress : BitVec 8 := 0x08

structure Info where
  nodeType : NodeType := .unknown
  dataType : Nat := 0
  idtype : BitVec 8 := 0
  value : BitVec 32 := 0
  id : Id := .none
  deriving DecidableEq

/-- `struct finsh_node`. -/
structure Node extends Info where
  sibling : Option Nat := none
  child : Option Nat := none
  deriving DecidableEq

abbrev NodeTable : Type := Nat → Node

/-- `finsh_node_allocate`: the first empty entry. -/
def allocateIndex (nodes : NodeTable) : Option Nat :=
  (List.range finshNodeMax).find? fun i => (nodes i).nodeType = .unknown

/-- An identifier as `finsh_node_new_id` resolves it, with its type: a variable before a system
variable, and that before a system call. -/
def resolve (vars : List Var) (symbols : Symbols) (name : List UInt8) : Option (Id × BitVec 8) :=
  match finshVarLookup vars name with
  | some i => some (.var i, idtypeVar)
  | none =>
    match finshSysvarLookup symbols name with
    | some v => some (.sysvar v, idtypeSysvar)
    | none =>
      match finshSyscallLookup symbols name with
      | some c => some (.syscall c, idtypeSyscall)
      | none => none

/-! ## Trees in the table -/

/-- A tree of nodes in the form the parser builds it: a node with its first child and its next
sibling. -/
inductive Tree where
  | nil
  | node (info : Info) (child sibling : Tree)
  deriving DecidableEq

/-- The entry `i`, its children and its siblings are the tree `t`, within the entries from `lo` up
to `hi`. -/
def Spans (nodes : NodeTable) (lo hi : Nat) : Option Nat → Tree → Prop
  | none, .nil => True
  | some i, .node info child sibling =>
    (lo ≤ i ∧ i < hi) ∧ (nodes i).toInfo = info ∧
      Spans nodes lo hi (nodes i).child child ∧ Spans nodes lo hi (nodes i).sibling sibling
  | none, .node _ _ _ => False
  | some _, .nil => False

variable {nodes : NodeTable} {nodes' : NodeTable} {child : Tree} {lo hi : Nat} {info : Info}

lemma Spans.congr {lo hi lo' hi' : Nat} {t : Tree} {i : Option Nat}
    (h : Spans nodes lo hi i t) (hn : ∀ j, lo ≤ j → j < hi → nodes' j = nodes j)
    (hlo : lo' ≤ lo) (hhi : hi ≤ hi') : Spans nodes' lo' hi' i t := by
  induction t generalizing i with
  | nil => cases i <;> exact h
  | node info child sibling ihc ihs =>
    cases i with
    | none => exact h
    | some i =>
      obtain ⟨hi, hinfo, hc, hs⟩ := h
      have heq := hn i hi.1 hi.2
      refine ⟨⟨by omega, by omega⟩, by rw [heq]; exact hinfo, ?_, ?_⟩
      · rw [heq]; exact ihc hc
      rw [heq]; exact ihs hs

/-- Exactly the first `k` entries are in use. -/
def Packed (nodes : NodeTable) (k : Nat) : Prop :=
  (∀ j < k, (nodes j).nodeType ≠ .unknown) ∧ ∀ j, k ≤ j → nodes j = {}

lemma Packed.allocateIndex {k : Nat} (h : Packed nodes k)
    (hk : k < finshNodeMax) : allocateIndex nodes = some k := by
  rw [Finsh.allocateIndex, List.find?_range_eq_some]
  refine ⟨by simp [h.2 k le_rfl], List.mem_range.mpr hk, fun j hj => ?_⟩
  simpa using h.1 j hj

/-- The entries from `lo` up to `hi` are one tree: the last of them is its root, which has no
sibling, and the others are below it. -/
def Built (nodes : NodeTable) (lo hi : Nat) (info : Info) (child : Tree) : Prop :=
  lo < hi ∧ ∃ c, nodes (hi - 1) = ⟨info, none, c⟩ ∧ Spans nodes lo (hi - 1) c child

lemma Built.congr
    (h : Built nodes lo hi info child) (hn : ∀ j, lo ≤ j → j < hi → nodes' j = nodes j) :
    Built nodes' lo hi info child := by
  obtain ⟨hlt, c, hroot, hspan⟩ := h
  refine ⟨hlt, c, by rw [hn _ (by omega) (by omega), hroot], ?_⟩
  exact hspan.congr (fun j h1 h2 => hn j h1 (by omega)) le_rfl le_rfl

lemma Built.spans (h : Built nodes lo hi info child) :
    Spans nodes lo hi (some (hi - 1)) (.node info child .nil) := by
  obtain ⟨hlt, c, hroot, hspan⟩ := h
  refine ⟨⟨by omega, by omega⟩, by rw [hroot], ?_, ?_⟩
  · rw [hroot]
    exact hspan.congr (fun _ _ _ => rfl) le_rfl (by omega)
  rw [hroot]
  trivial

end NbIot.Finsh
