import NbIot.Finsh.Correct
import NbIot.Finsh.Precedence

/-! # The size of the code

`finsh_code_byte` does not look at the end of `text_segment`. How many bytes a node takes depends on
its type and on the data type of its operand: from none at all to the 18 bytes of `a++` for an `int`
variable. `nodeSize` is the table, and the code of a line has the sum of its entries, with a `pop`
between two statements.
-/

namespace NbIot.Finsh

variable (G : Globals) {c : List UInt8 × Option ErrNo}

/-! ## The bytes of a node -/

/-- An instruction that exists for the three widths only. -/
def widthSize (dataType n : Nat) : Nat := if (dataWidth dataType).isSome then n else 0

def loadSize (type : FinshType) : Nat := if type.width.isSome then 5 else 0

def idSize (info : Info) : Nat :=
  if info.idtype &&& idtypeSyscall ≠ 0 then
    match info.id with
    | .syscall _ => 5
    | _ => 0
  else if info.idtype &&& idtypeSysvar ≠ 0 then
    match info.id with
    | .sysvar v => loadSize v.type
    | _ => 0
  else
    match info.id with
    | .var i => loadSize (G.type i)
    | _ => 0

/-- `++` and `--` are compiled for an identifier only. The constant 1 has the width of the
operand. -/
def stepSize (n dataType : Nat) : Tree → Nat
  | .node first _ _ =>
    match dataWidth dataType with
    | some w => if first.nodeType = .id then n + w.bytes else 0
    | none => 0
  | .nil => 0

def assignSize : Tree → Nat
  | .node first _ _ =>
    if first.nodeType = .id then widthSize first.dataType 2
    else if first.nodeType = .getvalue then widthSize (first.dataType % 16) 2
    else 0
  | .nil => 0

/-- The bytes that a node takes behind those of its children. -/
def nodeSize (info : Info) (child : Tree) : Nat :=
  match info.nodeType with
  | .id => idSize G info
  | .valueChar => 2
  | .valueInt | .valueLong | .valueNull | .valueString => 5
  | .add | .sub | .mul | .div | .mod | .and | .or | .xor | .bitwise | .shl | .shr =>
    widthSize info.dataType 1
  | .func => if child = .nil then 0 else 2
  | .assign => assignSize child
  | .preinc | .predec => stepSize 9 info.dataType child
  | .inc | .dec => stepSize 14 info.dataType child
  | .null => 4
  | .getvalue => if info.idtype &&& idtypeAddress ≠ 0 then 0 else widthSize info.dataType 1
  | .getaddr | .cast | .unknown => 0

def Tree.codeSize : Tree → Nat
  | .nil => 0
  | .node info child sibling => child.codeSize + nodeSize G info child + sibling.codeSize

/-- The bytes of a line with the given statements, once its nodes have their data types. -/
def Tree.lineSize (root : Tree) : Nat :=
  let checked := (finshTypeCheck G 0 root).1
  checked.codeSize G + (checked.count - 1)

/-! ## The code has that size -/

lemma length_widthCode (op : Width → Op) (d : Nat) : (widthCode op d).length = widthSize d 1 := by
  unfold widthCode widthSize
  cases dataWidth d <;> rfl

lemma length_loadCode (type : FinshType) (isAddr : Bool) (a : BitVec 32) :
    (loadCode type isAddr a).length = loadSize type := by
  unfold loadCode loadSize
  cases type.width <;> rfl

lemma length_idCode (info : Info) : (idCode G info).length = idSize G info := by
  dsimp only [idCode, idSize]
  split
  · cases info.id <;> rfl
  split
  · cases info.id <;> first | rfl | exact length_loadCode _ _ _
  cases info.id <;> first | rfl | exact length_loadCode _ _ _

lemma length_storeCode (d : Nat) : (storeCode d).1.length = widthSize d 2 := by
  unfold storeCode widthSize
  cases dataWidth d <;> rfl

lemma length_stepCode {code : Width → BitVec 32 → List UInt8} {n : Nat}
    (h : ∀ w a, (code w a).length = n + w.bytes) (info : Info) (child : Tree) :
    (stepCode G code info child).length = stepSize n info.dataType child := by
  unfold stepCode stepSize
  cases child with
  | nil => rfl
  | node first _ _ =>
    cases dataWidth info.dataType with
    | none => simp
    | some w =>
      dsimp only
      split
      · exact h _ _
      rfl

lemma length_preCode (op : Arith) (w : Width) (a : BitVec 32) :
    (preCode op w a).length = 9 + w.bytes := by
  cases w <;> rfl

lemma length_postCode (op : Arith) (w : Width) (a : BitVec 32) :
    (postCode op w a).length = 14 + w.bytes := by
  cases w <;> rfl

lemma length_nodeCode {info : Info} {child : Tree} (h : nodeCode G info child = some c) :
    c.1.length = nodeSize G info child := by
  unfold nodeCode at h
  unfold nodeSize
  cases htype : info.nodeType <;> rw [htype] at h
  case id =>
    cases h
    exact length_idCode G info
  case preinc | predec =>
    cases h
    exact length_stepCode G (length_preCode _) info child
  case inc | dec =>
    cases h
    exact length_stepCode G (length_postCode _) info child
  case add | sub | mul | div | mod | and | or | xor | bitwise | shl | shr =>
    cases h
    exact length_widthCode _ _
  case getvalue =>
    dsimp only at h ⊢
    split at h <;> rename_i haddr <;> cases h
    · rw [if_pos haddr]
      rfl
    · rw [if_neg haddr]
      exact length_widthCode _ _
  case assign =>
    cases child with
    | nil => cases h
    | node first _ _ =>
      dsimp only [assignSize] at h ⊢
      split at h <;> rename_i hid
      · cases h
        rw [if_pos hid]
        exact length_storeCode _
      rw [if_neg hid]
      split at h <;> rename_i hvalue <;> cases h
      · rw [if_pos hvalue]
        exact length_storeCode _
      · rw [if_neg hvalue]
        rfl
  case func =>
    cases child <;> cases h <;> rfl
  all_goals
    cases h
    rfl

lemma length_finshCompile {t : Tree} (h : finshCompile G t = some c) :
    c.1.length = t.codeSize G := by
  induction t generalizing c with
  | nil =>
    cases h
    rfl
  | node info child sibling ihc ihs =>
    simp only [finshCompile, Option.bind_eq_bind, Option.bind_eq_some_iff] at h
    obtain ⟨cc, hc, cn, hn, cs, hs, h⟩ := h
    cases h
    rw [Tree.codeSize, List.length_append, List.length_append, ihc hc, length_nodeCode G hn, ihs hs]

/-- Each statement but the last is followed by a `pop`. -/
lemma length_compileStatements {t : Tree} (h : compileStatements G t = some c) :
    c.1.length = t.codeSize G + (t.count - 1) := by
  induction t generalizing c with
  | nil =>
    cases h
    rfl
  | node info child sibling _ ih =>
    simp only [compileStatements, Option.bind_eq_bind, Option.bind_eq_some_iff] at h
    obtain ⟨cc, hc, cs, hs, h⟩ := h
    cases h
    have hstatement := length_finshCompile G hc
    have hrest := ih hs
    simp only [Tree.codeSize] at hstatement
    simp only [List.length_append, hstatement, hrest, Tree.codeSize, Tree.count]
    cases sibling with
    | nil => simp [Tree.codeSize, Tree.count]
    | node _ _ _ =>
      simp only [reduceCtorEq, if_false, List.length_singleton, Tree.count]
      omega

lemma length_finshCompilerRun {root : Tree} (h : finshCompilerRun G root = some c) :
    c.1.length = root.lineSize G := by
  obtain ⟨c', hc, rfl⟩ := Option.map_eq_some_iff.mp h
  calc c'.1.length = _ := length_compileStatements G hc
    _ = root.lineSize G := rfl

/-! ## Lines -/

/-- The tree below a pointer into the node table, of a depth that the fuel allows for. -/
def treeOf (nodes : NodeTable) : Nat → Option Nat → Tree
  | fuel + 1, some i =>
    .node (nodes i).toInfo (treeOf nodes fuel (nodes i).child) (treeOf nodes fuel (nodes i).sibling)
  | _, _ => .nil

section

variable {η : Type} (H : Host Lexer η) (base fuel depth : Nat) (p : Parser Lexer η)

/-- The variables and the tree that `finsh_parser_run` leaves for a line without an error, if it has
not written behind a buffer. `global_variable` is at `base`. -/
def parsedLine (line : List UInt8) : Option (Globals × Tree) :=
  match finshParserRun H fuel { p with token := { line := line } } with
  | .ok (_, p') =>
    if p'.errno = .ok ∧ p'.token.overrun = false then
      some (⟨base, p'.vars⟩, treeOf p'.nodes depth p'.root)
    else none
  | .error _ => none

/-- What `finsh_run_line` then has `finsh_compiler_run` write to `text_segment`. -/
def compiledLine (line : List UInt8) : Option (List UInt8) :=
  (parsedLine H base fuel depth p line).bind fun r => (finshCompilerRun r.1 r.2).map (·.1)

/-- **The code of a line fits** if and only if the nodes of its tree, by the table, and the `pop`s
between its statements take no more than `text_segment` has. -/
theorem code_fits_iff (line code : List UInt8)
    (h : compiledLine H base fuel depth p line = some code) :
    code.length ≤ finshTextMax ↔
      ∃ r ∈ parsedLine H base fuel depth p line, r.2.lineSize r.1 ≤ finshTextMax := by
  obtain ⟨r, hr, hcode⟩ := Option.bind_eq_some_iff.mp h
  obtain ⟨c, hc, rfl⟩ := Option.map_eq_some_iff.mp hcode
  rw [length_finshCompilerRun r.1 hc]
  constructor
  · exact fun hle => ⟨r, hr, hle⟩
  · rintro ⟨r', hr', hle⟩
    obtain rfl := Option.some.inj (hr.symm.trans hr')
    exact hle

end

/-- `"a++;a++;a++;"` with a number of statements `"1;"` behind. -/
def stepLine (n : Nat) : List UInt8 :=
  (['a', '+', '+', ';', 'a', '+', '+', ';', 'a', '+', '+', ';'] ++
    (List.replicate n ['1', ';']).flatten).map Char.toUInt8

theorem code_fits_iff_steps : ∃ code,
    compiledLine noHeap 0x20000000 100 16 (abcParser []) (stepLine 9) = some code ∧
      code.length ≤ finshTextMax := by
  have hsome : (compiledLine noHeap 0x20000000 100 16 (abcParser []) (stepLine 9)).isSome := by
    decide +kernel
  obtain ⟨code, hcode⟩ := Option.isSome_iff_exists.mp hsome
  exact ⟨code, hcode, (code_fits_iff noHeap _ _ _ _ _ code hcode).mpr (by decide +kernel)⟩

theorem code_overflows : (stepLine 10).length = 32 ∧
    (compiledLine noHeap 0x20000000 100 16 (abcParser []) (stepLine 10)).map (·.length) =
      some 131 ∧ finshTextMax = 128 := by
  decide +kernel

end NbIot.Finsh
