import NbIot.Finsh.Vm

/-! # The compiler of finsh

`finsh_compiler.c`: a pass that marks the nodes whose address is wanted and gives every node a data
type, and one that emits code for the virtual machine. Both walk over the tree of a line by its
`child` and `sibling` links, so they are functions on `Tree`. Each also returns the last error that
it reports. The code is the list of the bytes emitted; `segment` is `text_segment` with that code.

A variable is a structure of 24 bytes in `global_variable`, with its value at the offset 20. The
compiler reads the type of a variable from there.
-/

namespace NbIot.Finsh

/-! ## Variables and their types -/

/-- Where `global_variable` is, and what it says about the variables. -/
structure Globals where
  base : Nat
  vars : List Var

def Globals.type (G : Globals) (i : Nat) : FinshType := (G.vars[i]?.getD {}).type

/-- `id.var` of a node, as an address. The union holds whichever pointer was stored last. -/
def Globals.pointer (G : Globals) : Id → Nat
  | .none => 0
  | .var i => G.base + 24 * i
  | .sysvar v => v.self.toNat
  | .syscall c => c.self.toNat

/-- `&(var->value)`. -/
def Globals.value (G : Globals) (id : Id) : BitVec 32 := BitVec.ofNat 32 (G.pointer id + 20)

/-- `FINSH_DATA_TYPE_*`. -/
def dataTypeVoid : Nat := 0x00
def dataTypeByte : Nat := 0x01
def dataTypeWord : Nat := 0x02
def dataTypeDword : Nat := 0x03

/-- The data type of a variable; `none` is an unknown type. -/
def FinshType.dataType : FinshType → Option Nat
  | .void => some dataTypeVoid
  | .char | .uchar => some dataTypeByte
  | .short | .ushort => some dataTypeWord
  | .int | .uint | .long | .ulong => some dataTypeDword
  | .charp | .voidp | .shortp | .intp | .longp => some dataTypeDword
  | .unknown => none

/-! ## The type check -/

def leafType (G : Globals) (info : Info) : Nat × Option ErrNo :=
  match info.nodeType with
  | .id =>
    let type := if info.idtype &&& idtypeVar ≠ 0 then
        match info.id with
        | .var i => some (G.type i)
        | _ => none
      else if info.idtype &&& idtypeSysvar ≠ 0 then
        match info.id with
        | .sysvar v => some v.type
        | _ => none
      else none
    match type with
    | none => (info.dataType, none)
    | some type =>
      match type.dataType with
      | some d => (d, none)
      | none => (info.dataType, some .unknownType)
  | .valueChar => (dataTypeByte, none)
  | .valueInt | .valueLong | .valueString | .valueNull => (dataTypeDword, none)
  | _ => (info.dataType, none)

def childAddr (type : NodeType) (isAddr : BitVec 8) : BitVec 8 :=
  match type with
  | .assign | .preinc | .predec | .getaddr => idtypeAddress
  | .getvalue => if isAddr ≠ 0 then 0 else isAddr
  | _ => isAddr

/-- `finsh_type_check`. The data type of an inner node is that of its first child. -/
def finshTypeCheck (G : Globals) : BitVec 8 → Tree → Tree × Option ErrNo
  | _, .nil => (.nil, none)
  | isAddr, .node info child sibling =>
    let c := finshTypeCheck G (childAddr info.nodeType isAddr) child
    let s := finshTypeCheck G 0 sibling
    let info :=
      if info.idtype ≠ idtypeSyscall then { info with idtype := info.idtype ||| isAddr } else info
    match c.1 with
    | .node first _ _ => (.node { info with dataType := first.dataType } c.1 s.1, s.2 <|> c.2)
    | .nil =>
      let d := leafType G info
      (.node { info with dataType := d.1 } .nil s.1, d.2 <|> s.2 <|> c.2)

/-! ## The code of a node -/

def dataWidth : Nat → Option Width
  | 0x01 => some .byte
  | 0x02 => some .word
  | 0x03 => some .dword
  | _ => none

/-- The width with which a variable is loaded. There is none for `void`, nor for `void *`. -/
def FinshType.width : FinshType → Option Width
  | .char | .uchar => some .byte
  | .short | .ushort => some .word
  | .int | .uint | .long | .ulong | .charp | .shortp | .intp | .longp => some .dword
  | .void | .voidp | .unknown => none

def Width.one : Width → List UInt8
  | byte => [1]
  | word => [1, 0]
  | dword => [1, 0, 0, 0]

def loadCode (type : FinshType) (isAddr : Bool) (a : BitVec 32) : List UInt8 :=
  match type.width with
  | none => []
  | some w => (if isAddr then Op.ld .dword else Op.ldValue w).code :: dword a

/-- `case FINSH_NODE_ID`. -/
def idCode (G : Globals) (info : Info) : List UInt8 :=
  let isAddr := info.idtype &&& idtypeAddress ≠ 0
  if info.idtype &&& idtypeSyscall ≠ 0 then
    match info.id with
    | .syscall c => (Op.ld .dword).code :: dword c.func
    | _ => []
  else if info.idtype &&& idtypeSysvar ≠ 0 then
    match info.id with
    | .sysvar v => loadCode v.type isAddr v.var
    | _ => []
  else
    match info.id with
    | .var i => loadCode (G.type i) isAddr (G.value (.var i))
    | _ => []

def storeCode (dataType : Nat) : List UInt8 × Option ErrNo :=
  match dataWidth dataType with
  | some w => ([(Op.st w).code, (Op.ldValueStack w).code], none)
  | none => ([], some .unknownType)

/-- `case FINSH_NODE_SYS_PREINC` and `case FINSH_NODE_SYS_PREDEC`: the address is already on the
stack. The result is loaded with four bytes, whatever the width. -/
def preCode (op : Arith) (w : Width) (a : BitVec 32) : List UInt8 :=
  (Op.ldValue w).code :: dword a ++ (Op.ld w).code :: w.one ++
    [(Op.bin op w).code, (Op.st w).code, (Op.ldValueStack .dword).code]

/-- `case FINSH_NODE_SYS_INC` and `case FINSH_NODE_SYS_DEC`: the value is already on the stack. -/
def postCode (op : Arith) (w : Width) (a : BitVec 32) : List UInt8 :=
  (Op.ld .dword).code :: dword a ++ (Op.ldValue w).code :: dword a ++ (Op.ld w).code :: w.one ++
    [(Op.bin op w).code, (Op.st w).code, Op.pop.code]

/-- The code of the operators `++` and `--`, emitted for an identifier only. -/
def stepCode (G : Globals) (code : Width → BitVec 32 → List UInt8) (info : Info) (child : Tree) :
    List UInt8 :=
  match child with
  | .node first _ _ =>
    if first.nodeType = .id then
      match dataWidth info.dataType with
      | some w => code w (G.value first.id)
      | none => []
    else []
  | .nil => []

def widthCode (op : Width → Op) (dataType : Nat) : List UInt8 :=
  match dataWidth dataType with
  | some w => [(op w).code]
  | none => []

def Tree.count : Tree → Nat
  | .nil => 0
  | .node _ _ sibling => sibling.count + 1

/-- What is emitted for a node behind the code of its children, and the error reported; `none` is a
dereference of `RT_NULL`. -/
def nodeCode (G : Globals) (info : Info) (child : Tree) : Option (List UInt8 × Option ErrNo) :=
  match info.nodeType with
  | .id => some (idCode G info, none)
  | .valueChar => some ([(Op.ld .byte).code, UInt8.ofNat info.value.toNat], none)
  | .valueInt | .valueLong | .valueNull | .valueString =>
    some ((Op.ld .dword).code :: dword info.value, none)
  | .add => some (widthCode (.bin .add) info.dataType, none)
  | .sub => some (widthCode (.bin .sub) info.dataType, none)
  | .mul => some (widthCode (.bin .mul) info.dataType, none)
  | .div => some (widthCode (.bin .div) info.dataType, none)
  | .mod => some (widthCode (.bin .mod) info.dataType, none)
  | .and => some (widthCode (.bin .and) info.dataType, none)
  | .or => some (widthCode (.bin .or) info.dataType, none)
  | .xor => some (widthCode (.bin .xor) info.dataType, none)
  | .bitwise => some (widthCode .bw info.dataType, none)
  | .shl => some (widthCode (.bin .shl) info.dataType, none)
  | .shr => some (widthCode (.bin .shr) info.dataType, none)
  | .func =>
    match child with
    | .nil => some ([], none)
    | .node _ _ params => some ([Op.call.code, UInt8.ofNat params.count], none)
  | .assign =>
    match child with
    | .nil => none
    | .node first _ _ =>
      if first.nodeType = .id then some (storeCode first.dataType)
      else if first.nodeType = .getvalue then some (storeCode (first.dataType % 16))
      else some ([], none)
  | .preinc => some (stepCode G (preCode .add) info child, none)
  | .predec => some (stepCode G (preCode .sub) info child, none)
  | .inc => some (stepCode G (postCode .add) info child, none)
  | .dec => some (stepCode G (postCode .sub) info child, none)
  | .null => some (dword 0, none)
  | .getvalue =>
    if info.idtype &&& idtypeAddress ≠ 0 then some ([], none)
    else some (widthCode .ldValueStack info.dataType, none)
  | .getaddr => some ([], none)
  | .cast | .unknown => some ([], some .unknownNode)

/-! ## The code of a line -/

/-- `finsh_compile`: the children, the node, the siblings. -/
def finshCompile (G : Globals) : Tree → Option (List UInt8 × Option ErrNo)
  | .nil => some ([], none)
  | .node info child sibling => do
    let c ← finshCompile G child
    let n ← nodeCode G info child
    let s ← finshCompile G sibling
    some (c.1 ++ n.1 ++ s.1, s.2 <|> n.2 <|> c.2)

/-- The loop of `finsh_compiler_run`: one statement after the other, each cut off from its siblings,
with the value of all but the last popped. -/
def compileStatements (G : Globals) : Tree → Option (List UInt8 × Option ErrNo)
  | .nil => some ([], none)
  | .node info child sibling => do
    let c ← finshCompile G (.node info child .nil)
    let s ← compileStatements G sibling
    some (c.1 ++ (if sibling = .nil then [] else [Op.pop.code]) ++ s.1, s.2 <|> c.2)

def finshCompilerRun (G : Globals) (root : Tree) : Option (List UInt8 × Option ErrNo) :=
  let checked := finshTypeCheck G 0 root
  (compileStatements G checked.1).map fun c => (c.1, c.2 <|> checked.2)

/-- `text_segment` with code that fits in it. -/
def segment (code : List UInt8) : List UInt8 :=
  code ++ List.replicate (finshTextMax - code.length) Op.noop.code

lemma length_segment {code : List UInt8} (h : code.length ≤ finshTextMax) :
    (segment code).length = finshTextMax := by
  rw [segment, List.length_append, List.length_replicate]
  omega

end NbIot.Finsh
