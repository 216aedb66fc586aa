import NbIot.Finsh.Blocks
import NbIot.Finsh.Compiler
import NbIot.Finsh.IntExpr

/-! # The compiler of finsh preserves meaning

The code that the compiler emits for the tree of an integer expression, run by the virtual machine,
pushes the value of the expression and changes the variables as its evaluation does (`block_code`,
by induction on the expression). For a line, a sequence of expressions, the values of all but the
last are popped again.
-/

namespace NbIot.Finsh

open Function List Option

/-! ## The trees of expressions -/

def FinshType.Wide : FinshType → Prop
  | .int | .uint | .long | .ulong => True
  | _ => False

instance (t : FinshType) : Decidable t.Wide := by
  cases t <;> unfold FinshType.Wide <;> infer_instance

def IntExpr.Declared (G : Globals) : IntExpr → Prop
  | int _ | long _ => True
  | var i | pre _ i | post _ i => i < finshVariableMax ∧ (G.type i).Wide
  | bin _ l r => l.Declared G ∧ r.Declared G
  | complement e | negate e => e.Declared G
  | assign i e => (i < finshVariableMax ∧ (G.type i).Wide) ∧ e.Declared G

instance IntExpr.decidableDeclared (G : Globals) : (e : IntExpr) → Decidable (e.Declared G)
  | int _ | long _ => instDecidableTrue
  | var _ | pre _ _ | post _ _ => inferInstanceAs (Decidable (_ ∧ _))
  | bin _ l r =>
    have := decidableDeclared G l
    have := decidableDeclared G r
    inferInstanceAs (Decidable (_ ∧ _))
  | complement e | negate e => decidableDeclared G e
  | assign _ e =>
    have := decidableDeclared G e
    inferInstanceAs (Decidable ((_ ∧ _) ∧ _))

def Arith.nodeType : Arith → NodeType
  | add => .add
  | sub => .sub
  | div => .div
  | mod => .mod
  | mul => .mul
  | and => .and
  | or => .or
  | xor => .xor
  | shl => .shl
  | shr => .shr

def Step.preType : Step → NodeType
  | inc => .preinc
  | dec => .predec

def Step.postType : Step → NodeType
  | inc => .inc
  | dec => .dec

def varNode (dataType : Nat) (idtype : BitVec 8) (i : Nat) (sibling : Tree) : Tree :=
  .node { nodeType := .id, dataType := dataType, idtype := idtype, id := .var i } .nil sibling

/-- The tree of an expression with a next sibling; every node has the data type `d`, and the nodes
whose address is wanted are marked with `a`. Unary minus is a subtraction from the literal 0. -/
def IntExpr.tree (d : Nat) (a : BitVec 8) : IntExpr → Tree → Tree
  | int v, s => .node { nodeType := .valueInt, dataType := d, value := v } .nil s
  | long v, s => .node { nodeType := .valueLong, dataType := d, value := v } .nil s
  | var i, s => varNode d idtypeVar i s
  | bin op l r, s =>
    .node { nodeType := op.nodeType, dataType := d } (l.tree d a (r.tree d a .nil)) s
  | complement e, s => .node { nodeType := .bitwise, dataType := d } (e.tree d a .nil) s
  | negate e, s =>
    .node { nodeType := .sub, dataType := d }
      (.node { nodeType := .valueLong, dataType := d } .nil (e.tree d a .nil)) s
  | pre op i, s =>
    .node { nodeType := op.preType, dataType := d } (varNode d (idtypeVar ||| a) i .nil) s
  | post op i, s => .node { nodeType := op.postType, dataType := d } (varNode d idtypeVar i .nil) s
  | assign i e, s =>
    .node { nodeType := .assign, dataType := d }
      (varNode d (idtypeVar ||| a) i (e.tree d a .nil)) s

def lineTree (d : Nat) (a : BitVec 8) (es : List IntExpr) : Tree :=
  es.foldr (fun e s => e.tree d a s) .nil

abbrev syntaxTree (es : List IntExpr) : Tree := lineTree 0 0 es

lemma IntExpr.tree_eq_node (e : IntExpr) (d : Nat) (a : BitVec 8) :
    ∃ info child, info.dataType = d ∧ ∀ s, e.tree d a s = .node info child s := by
  cases e <;> exact ⟨_, _, rfl, fun _ => rfl⟩

lemma dataType_wide {t : FinshType} (h : t.Wide) : t.dataType = some dataTypeDword := by
  cases t <;> first | rfl | exact h.elim

lemma width_wide {t : FinshType} (h : t.Wide) : t.width = some .dword := by
  cases t <;> first | rfl | exact h.elim

lemma isVar_marked : ∀ a : BitVec 8, (idtypeVar ||| a) &&& idtypeVar ≠ 0 := by decide

/-! ## The type check -/

section

variable {G : Globals}

lemma typeCheck_varNode {i : Nat} (hi : (G.type i).Wide) (a : BitVec 8) (s : Tree) :
    finshTypeCheck G a (varNode 0 idtypeVar i s)
      = (varNode dataTypeDword (idtypeVar ||| a) i (finshTypeCheck G 0 s).1,
          (finshTypeCheck G 0 s).2) := by
  have hvar : idtypeVar ≠ idtypeSyscall := by decide
  rw [varNode]
  simp only [finshTypeCheck, if_pos hvar, leafType, if_pos (isVar_marked a), dataType_wide hi]
  simp [varNode]

lemma typeCheck_literal {info : Info} (hid : info.idtype = 0)
    (ht : info.nodeType = .valueInt ∨ info.nodeType = .valueLong) (s : Tree) :
    finshTypeCheck G 0 (.node info .nil s)
      = (.node { info with dataType := dataTypeDword } .nil (finshTypeCheck G 0 s).1,
          (finshTypeCheck G 0 s).2) := by
  obtain ⟨type, d, idtype, v, id⟩ := info
  rcases ht with rfl | rfl <;> simp [finshTypeCheck, leafType]

lemma typeCheck_inner {type : NodeType} {c : Tree} {first : Info} {x y : Tree}
    (h : finshTypeCheck G (childAddr type 0) c = (.node first x y, none))
    (hd : first.dataType = dataTypeDword) (s : Tree) :
    finshTypeCheck G 0 (.node { nodeType := type } c s)
      = (.node { nodeType := type, dataType := dataTypeDword } (.node first x y)
          (finshTypeCheck G 0 s).1, (finshTypeCheck G 0 s).2) := by
  rw [finshTypeCheck]
  simp only [h, hd]
  simp

lemma childAddr_arith (op : Arith) : childAddr op.nodeType 0 = 0 := by cases op <;> rfl

lemma childAddr_pre (op : Step) : childAddr op.preType 0 = idtypeAddress := by cases op <;> rfl

lemma childAddr_post (op : Step) : childAddr op.postType 0 = 0 := by cases op <;> rfl

lemma typeCheck_tree {e : IntExpr} (he : e.Declared G) (s : Tree) :
    finshTypeCheck G 0 (e.tree 0 0 s)
      = (e.tree dataTypeDword idtypeAddress (finshTypeCheck G 0 s).1,
          (finshTypeCheck G 0 s).2) := by
  induction e generalizing s with
  | int v => exact typeCheck_literal rfl (.inl rfl) s
  | long v => exact typeCheck_literal rfl (.inr rfl) s
  | var i => exact typeCheck_varNode he.2 0 s
  | bin op l r ihl ihr =>
    obtain ⟨first, child, hd, hnode⟩ := l.tree_eq_node dataTypeDword idtypeAddress
    have h := ihl he.1 (r.tree 0 0 .nil)
    rw [ihr he.2 .nil, hnode] at h
    simp only [IntExpr.tree, hnode]
    exact typeCheck_inner (by rw [childAddr_arith]; exact h) hd s
  | complement e ih =>
    obtain ⟨first, child, hd, hnode⟩ := e.tree_eq_node dataTypeDword idtypeAddress
    have h := ih he .nil
    rw [hnode] at h
    simp only [IntExpr.tree, hnode]
    exact typeCheck_inner h hd s
  | negate e ih =>
    have h : finshTypeCheck G 0 (.node { nodeType := .valueLong } .nil (e.tree 0 0 .nil)) = _ :=
      typeCheck_literal rfl (.inr rfl) _
    rw [ih he .nil] at h
    exact typeCheck_inner h rfl s
  | pre op i =>
    refine typeCheck_inner ?_ rfl s
    rw [childAddr_pre]
    exact typeCheck_varNode he.2 _ .nil
  | post op i =>
    refine typeCheck_inner ?_ rfl s
    rw [childAddr_post]
    exact typeCheck_varNode he.2 _ .nil
  | assign i e ih =>
    have h := typeCheck_varNode he.1.2 idtypeAddress (e.tree 0 0 .nil)
    rw [ih he.2 .nil] at h
    exact typeCheck_inner h rfl s

lemma typeCheck_lineTree {es : List IntExpr} (hes : ∀ e ∈ es, e.Declared G) :
    finshTypeCheck G 0 (lineTree 0 0 es) = (lineTree dataTypeDword idtypeAddress es, none) := by
  induction es with
  | nil => rfl
  | cons e es ih =>
    have h := typeCheck_tree (hes e mem_cons_self) (lineTree 0 0 es)
    rw [ih fun e' he' => hes e' (mem_cons_of_mem _ he')] at h
    exact h

end

/-! ## The code -/

def ldCode (v : BitVec 32) : List UInt8 := (Op.ld .dword).code :: dword v

def ldValueCode (a : BitVec 32) : List UInt8 := (Op.ldValue .dword).code :: dword a

def IntExpr.code (G : Globals) : IntExpr → List UInt8
  | int v | long v => ldCode v
  | var i => ldValueCode (G.value (.var i))
  | bin op l r => l.code G ++ r.code G ++ [(Op.bin op .dword).code]
  | complement e => e.code G ++ [(Op.bw .dword).code]
  | negate e => ldCode 0 ++ e.code G ++ [(Op.bin .sub .dword).code]
  | pre op i => ldCode (G.value (.var i)) ++ preCode op.arith .dword (G.value (.var i))
  | post op i => ldValueCode (G.value (.var i)) ++ postCode op.arith .dword (G.value (.var i))
  | assign i e =>
    ldCode (G.value (.var i)) ++ e.code G ++ [(Op.st .dword).code, (Op.ldValueStack .dword).code]

def lineCode (G : Globals) : List IntExpr → List UInt8
  | [] => []
  | [e] => e.code G
  | e :: es => e.code G ++ [Op.pop.code] ++ lineCode G es

section

variable {G : Globals} {es : List IntExpr}

lemma idCode_var {i : Nat} (hi : (G.type i).Wide) (d : Nat) (marked : Bool) :
    idCode G { nodeType := .id, dataType := d, id := .var i,
               idtype := idtypeVar ||| if marked then idtypeAddress else 0 }
      = if marked then ldCode (G.value (.var i)) else ldValueCode (G.value (.var i)) := by
  cases marked <;> simp [idCode, loadCode, width_wide hi, ldCode, ldValueCode, idtypeVar,
    idtypeAddress, idtypeSyscall, idtypeSysvar]

lemma compile_node {info : Info} {child sibling : Tree} {c n s : List UInt8}
    (hc : finshCompile G child = some (c, none)) (hn : nodeCode G info child = some (n, none))
    (hs : finshCompile G sibling = some (s, none)) :
    finshCompile G (.node info child sibling) = some (c ++ n ++ s, none) := by
  simp [finshCompile, hc, hn, hs]

lemma compile_varNode {i : Nat} (hi : (G.type i).Wide) (marked : Bool) {sibling : Tree}
    {s : List UInt8} (hs : finshCompile G sibling = some (s, none)) :
    finshCompile G (varNode dataTypeDword
        (idtypeVar ||| if marked then idtypeAddress else 0) i sibling)
      = some ((if marked then ldCode (G.value (.var i)) else ldValueCode (G.value (.var i))) ++ s,
          none) := by
  have hn := congrArg (fun c : List UInt8 => some (c, (none : Option ErrNo)))
    (idCode_var hi dataTypeDword marked)
  have hnil : finshCompile G .nil = some ([], none) := rfl
  exact compile_node hnil hn hs

lemma nodeCode_arith (op : Arith) (child : Tree) :
    nodeCode G { nodeType := op.nodeType, dataType := dataTypeDword } child
      = some ([(Op.bin op .dword).code], none) := by
  cases op <;> rfl

lemma compile_tree {e : IntExpr} (he : e.Declared G) {s : Tree} {c : List UInt8}
    (hs : finshCompile G s = some (c, none)) :
    finshCompile G (e.tree dataTypeDword idtypeAddress s) = some (e.code G ++ c, none) := by
  have hnil : finshCompile G .nil = some ([], none) := rfl
  induction e generalizing s c with
  | int v | long v => exact compile_node hnil rfl hs
  | var i => exact compile_varNode he.2 false hs
  | bin op l r ihl ihr =>
    have hr := ihr he.2 hnil
    have hl := ihl he.1 hr
    rw [append_nil] at hl
    exact compile_node hl (nodeCode_arith op _) hs
  | complement e ih =>
    have h := ih he hnil
    rw [append_nil] at h
    exact compile_node h rfl hs
  | negate e ih =>
    have h := ih he hnil
    rw [append_nil] at h
    exact compile_node (compile_node hnil rfl h) rfl hs
  | pre op i =>
    have h := compile_varNode he.2 true hnil
    exact compile_node h (by cases op <;> rfl) hs
  | post op i =>
    have h := compile_varNode he.2 false hnil
    exact compile_node h (by cases op <;> rfl) hs
  | assign i e ih =>
    have h := ih he.2 hnil
    rw [append_nil] at h
    exact compile_node (compile_varNode he.1.2 true h) rfl hs

lemma compileStatements_lineTree (hes : ∀ e ∈ es, e.Declared G) :
    compileStatements G (lineTree dataTypeDword idtypeAddress es) = some (lineCode G es, none) := by
  induction es with
  | nil => rfl
  | cons e es ih =>
    have hrest := ih fun e' he' => hes e' (mem_cons_of_mem _ he')
    have hhead := compile_tree (hes e mem_cons_self) (s := .nil) rfl
    obtain ⟨info, child, -, hnode⟩ := e.tree_eq_node dataTypeDword idtypeAddress
    rw [hnode] at hhead
    show compileStatements G (e.tree _ _ (lineTree dataTypeDword idtypeAddress es)) = _
    rw [hnode, compileStatements]
    simp only [hhead, hrest]
    cases es with
    | nil => simp [lineTree, lineCode]
    | cons e' es =>
      obtain ⟨info', child', -, hnode'⟩ := e'.tree_eq_node dataTypeDword idtypeAddress
      simp [lineTree, hnode', lineCode]

lemma finshCompilerRun_eq (hes : ∀ e ∈ es, e.Declared G) :
    finshCompilerRun G (syntaxTree es) = some (lineCode G es, none) := by
  rw [finshCompilerRun, typeCheck_lineTree hes]
  simp only [compileStatements_lineTree hes]
  rfl

/-- The code that `++` and `--` share before and behind a variable. -/
def updateCode (op : Arith) (a : BitVec 32) : List UInt8 :=
  ldCode a ++ ldValueCode a ++ ldCode 1 ++ [(Op.bin op .dword).code, (Op.st .dword).code]

lemma code_pre (op : Step) (i : Nat) : (IntExpr.pre op i).code G
    = updateCode op.arith (G.value (.var i)) ++ [(Op.ldValueStack .dword).code] := rfl

lemma code_post (op : Step) (i : Nat) : (IntExpr.post op i).code G
    = ldValueCode (G.value (.var i)) ++ updateCode op.arith (G.value (.var i)) ++ [Op.pop.code] :=
  rfl

lemma five_le_code (e : IntExpr) : 5 ≤ (e.code G).length := by
  induction e with
  | bin op l r ihl ihr | complement e ih =>
    simp only [IntExpr.code, length_append]
    omega
  | _ => simp [IntExpr.code, ldCode, ldValueCode]

end

/-! ## Variables in memory -/

def Globals.store (G : Globals) (m : Mem) : Store :=
  fun i => BitVec.ofNat 32 (m.load (G.value (.var i)).toNat 4)

def Holds (G : Globals) (m : Mem) (σ : Store) : Prop := ∀ i < finshVariableMax, G.store m i = σ i

def Untouched (G : Globals) (m m' : Mem) : Prop :=
  ∀ a, (∀ i < finshVariableMax,
      ¬ ((G.value (.var i)).toNat ≤ a ∧ a < (G.value (.var i)).toNat + 4)) →
    m' a = m a

def Globals.InSpace (G : Globals) : Prop := G.base + 24 * finshVariableMax ≤ wordSize

section

variable {G : Globals} (hG : G.InSpace) {i : Nat}

lemma Untouched.refl (m : Mem) : Untouched G m m := fun _ _ => rfl

lemma Untouched.trans {m m' m'' : Mem} (h : Untouched G m m') (h' : Untouched G m' m'') :
    Untouched G m m'' :=
  fun a ha => (h' a ha).trans (h a ha)

include hG

lemma toNat_value (hi : i < finshVariableMax) :
    (G.value (.var i)).toNat = G.base + 24 * i + 20 := by
  have hlt : G.base + 24 * i + 20 < 2 ^ 32 := by
    unfold Globals.InSpace finshVariableMax wordSize at hG
    unfold finshVariableMax at hi
    omega
  rw [Globals.value, BitVec.toNat_ofNat, Globals.pointer, Nat.mod_eq_of_lt hlt]

lemma Holds.write {m : Mem} {σ : Store} (h : Holds G m σ) (hi : i < finshVariableMax)
    (v : BitVec 32) : Holds G (m.store (G.value (.var i)).toNat 4 v.toNat) (update σ i v) := by
  intro j hj
  by_cases hij : j = i
  · subst hij
    rw [Globals.store, Mem.load_store, update_self, Nat.mod_eq_of_lt (by omega),
      BitVec.ofNat_toNat, BitVec.setWidth_eq]
  rw [Globals.store, Mem.load_store_of_disjoint, update_of_ne hij, ← h j hj]
  · rfl
  rw [toNat_value hG hi, toNat_value hG hj]
  omega

omit hG in
lemma untouched_write (m : Mem) (hi : i < finshVariableMax) (v : Nat) :
    Untouched G m (m.store (G.value (.var i)).toNat 4 v) := by
  intro a ha
  have hout := ha i hi
  exact (Mem.agree_store m _ 4 v a (a + 1) (by omega) a le_rfl (Nat.lt_succ_self a)).symm

end

/-! ## The code computes the value -/

section

variable {functions : Functions} {text : List UInt8} (htext : text.length = finshTextMax)
variable {k : Nat} {xs : List (BitVec 32)} {m : Mem} {G : Globals} {v : BitVec 32} {σ : Store}
  {i : Nat}
include htext

omit htext in
lemma slots_cons (x : BitVec 32) {n : Nat} (hk : 5 * xs.length ≤ k) (hn : 5 ≤ n) :
    5 * (x :: xs).length ≤ k + n := by
  rw [length_cons]
  omega

lemma room {b : UInt8} (hp : Placed text k (b :: dword v))
    (hk : 5 * xs.length ≤ k) : xs.length < finshStackMax := by
  have hfits := hp.fits (cons_ne_nil _ _)
  rw [htext] at hfits
  unfold finshTextMax at hfits
  unfold finshStackMax
  omega

lemma block_ld (hp : Placed text k (ldCode v)) (hk : 5 * xs.length ≤ k) :
    Block functions text k xs m (k + 5) (v :: xs) m :=
  Block.ld htext hp (room htext hp hk)

lemma block_ldValue (hp : Placed text k (ldValueCode (G.value (.var i))))
    (hk : 5 * xs.length ≤ k) : Block functions text k xs m (k + 5) (G.store m i :: xs) m :=
  Block.ldValue htext hp (room htext hp hk)

lemma block_update {op : Step}
    (hp : Placed text k (updateCode op.arith (G.value (.var i)))) (hk : 5 * xs.length ≤ k) :
    Block functions text k xs m (k + 17) (G.value (.var i) :: xs)
      (m.store (G.value (.var i)).toNat 4 (op.apply (G.store m i)).toNat) := by
  have hv : op.arith.eval (G.store m i) 1 = some (op.apply (G.store m i)) := by cases op <;> rfl
  rw [updateCode, placed_append, placed_append, placed_append, placed_cons] at hp
  obtain ⟨⟨⟨haddr, hvalue⟩, hone⟩, hbin, hst⟩ := hp
  have h1 := slots_cons (G.value (.var i)) hk le_rfl
  have h2 := slots_cons (G.store m i) h1 le_rfl
  refine (block_ld htext haddr hk).trans ?_
  refine (block_ldValue htext hvalue h1).trans ?_
  refine (block_ld htext hone h2).trans ?_
  exact (Block.bin htext hbin hv).trans (Block.st htext hst)

lemma block_reload (hi : i < finshVariableMax)
    (hm : Holds G m (update σ i v)) (hp : Placed text k [(Op.ldValueStack .dword).code]) :
    Block functions text k (G.value (.var i) :: xs) m (k + 1) (v :: xs) m := by
  have hv : G.store m i = v := by rw [hm i hi, update_self]
  rw [← hv]
  exact Block.ldValueStack htext hp

/-- **Simulation.** The code of an expression pushes its value and changes the variables as its
evaluation does. -/
theorem block_code (hG : G.InSpace) {e : IntExpr} (he : e.Declared G) {σ' : Store}
    (h : e.evalWord σ = some (v, σ')) (hm : Holds G m σ) (hp : Placed text k (e.code G))
    (hk : 5 * xs.length ≤ k) :
    ∃ m', Block functions text k xs m (k + (e.code G).length) (v :: xs) m' ∧ Holds G m' σ' ∧
      Untouched G m m' := by
  induction e generalizing k xs m σ σ' v with
  | int n | long n =>
    cases h
    exact ⟨m, block_ld htext hp hk, hm, .refl m⟩
  | var i =>
    cases h
    refine ⟨m, ?_, hm, .refl m⟩
    rw [← hm i he.1]
    exact block_ldValue htext hp hk
  | bin op l r ihl ihr =>
    obtain ⟨⟨a, σ1⟩, hl, h⟩ := bind_eq_some_iff.mp h
    obtain ⟨⟨b, σ2⟩, hr, h⟩ := bind_eq_some_iff.mp h
    obtain ⟨w, hw, h⟩ := bind_eq_some_iff.mp h
    cases h
    have hlen := five_le_code (G := G) l
    rw [IntExpr.code, placed_append, placed_append, length_append, ← Nat.add_assoc] at hp
    obtain ⟨⟨hpl, hpr⟩, hop⟩ := hp
    -- The value of the left operand is below while the right one is computed.
    obtain ⟨m1, hb1, hm1, hu1⟩ := ihl he.1 hl hm hpl hk
    obtain ⟨m2, hb2, hm2, hu2⟩ := ihr he.2 hr hm1 hpr (slots_cons a hk hlen)
    refine ⟨m2, ((hb1.trans hb2).trans (Block.bin htext hop hw)).ends ?_, hm2, hu1.trans hu2⟩
    simp only [IntExpr.code, length_append, length_singleton, Nat.add_assoc]
  | complement e ih =>
    obtain ⟨⟨a, σ1⟩, ha, h⟩ := bind_eq_some_iff.mp h
    cases h
    rw [IntExpr.code, placed_append] at hp
    obtain ⟨m1, hb, hm1, hu⟩ := ih he ha hm hp.1 hk
    refine ⟨m1, (hb.trans (Block.bw htext hp.2)).ends ?_, hm1, hu⟩
    rw [IntExpr.code, length_append, length_singleton, Nat.add_assoc]
  | negate e ih =>
    obtain ⟨⟨a, σ1⟩, ha, h⟩ := bind_eq_some_iff.mp h
    cases h
    have hsub : Arith.sub.eval 0 a = some (-a) := congrArg some (BitVec.zero_sub a)
    rw [IntExpr.code, placed_append, placed_append, length_append, ← Nat.add_assoc] at hp
    obtain ⟨⟨hp0, hpe⟩, hop⟩ := hp
    obtain ⟨m1, hb, hm1, hu⟩ := ih he ha hm hpe (slots_cons 0 hk le_rfl)
    refine ⟨m1, (((block_ld htext hp0 hk).trans hb).trans (Block.bin htext hop hsub)).ends ?_,
      hm1, hu⟩
    simp only [IntExpr.code, length_append, length_singleton, Nat.add_assoc]
  | pre op i =>
    cases h
    have hm' := hm.write hG he.1 (op.apply (σ i))
    rw [code_pre, placed_append] at hp
    refine ⟨_, ?_, hm', untouched_write m he.1 _⟩
    rw [← hm i he.1] at hm' ⊢
    exact (block_update htext hp.1 hk).trans (block_reload htext he.1 hm' hp.2)
  | post op i =>
    cases h
    have hm' := hm.write hG he.1 (op.apply (σ i))
    rw [code_post, placed_append, placed_append] at hp
    refine ⟨_, ?_, hm', untouched_write m he.1 _⟩
    rw [← hm i he.1]
    -- The old value stays on the stack, below the address.
    have hk' := slots_cons (G.store m i) hk le_rfl
    refine (block_ldValue htext hp.1.1 hk).trans ?_
    exact (block_update htext hp.1.2 hk').trans (Block.pop htext hp.2)
  | assign i e ih =>
    obtain ⟨⟨a, σ1⟩, ha, h⟩ := bind_eq_some_iff.mp h
    obtain ⟨rfl, rfl⟩ := Prod.mk.inj (Option.some.inj h)
    rw [IntExpr.code, placed_append, placed_append, placed_cons, length_append,
      ← Nat.add_assoc] at hp
    obtain ⟨⟨hpa, hpe⟩, hps, hpl⟩ := hp
    obtain ⟨m1, hb, hm1, hu⟩ := ih he.2 ha hm hpe (slots_cons (G.value (.var i)) hk le_rfl)
    have hm' := hm1.write hG he.1.1 a
    refine ⟨_, ?_, hm', hu.trans (untouched_write m1 he.1.1 _)⟩
    refine (((block_ld htext hpa hk).trans hb).trans
      ((Block.st htext hps).trans (block_reload htext he.1.1 hm' hpl))).ends ?_
    simp only [IntExpr.code, length_append, length_cons, length_nil, Nat.add_assoc]

lemma block_lineCode (hG : G.InSpace) {es : List IntExpr}
    (hes : ∀ e ∈ es, e.Declared G) {σ' : Store}
    (h : evalLineWord es σ = some (v, σ')) (hm : Holds G m σ) (hp : Placed text k (lineCode G es)) :
    ∃ m', Block functions text k [] m (k + (lineCode G es).length) [v] m' ∧ Holds G m' σ' ∧
      Untouched G m m' := by
  induction es generalizing k m σ with
  | nil => cases h
  | cons e es ih =>
    have he := hes e mem_cons_self
    cases es with
    | nil => exact block_code htext hG he h hm hp (Nat.zero_le k)
    | cons e' es =>
      obtain ⟨⟨w, σ1⟩, hw, h⟩ := bind_eq_some_iff.mp h
      rw [lineCode, placed_append, placed_append, length_append] at hp
      · obtain ⟨⟨hpe, hpp⟩, hprest⟩ := hp
        have hempty : 5 * ([] : List (BitVec 32)).length ≤ k := Nat.zero_le k
        obtain ⟨m1, hb1, hm1, hu1⟩ := block_code htext hG he hw hm hpe hempty
        obtain ⟨m2, hb2, hm2, hu2⟩ := ih (fun d hd => hes d (mem_cons_of_mem _ hd)) h hm1 hprest
        refine ⟨m2, ((hb1.trans (Block.pop htext hpp)).trans hb2).ends ?_, hm2, hu1.trans hu2⟩
        simp only [lineCode, length_append, add_assoc]
      simp

end

/-- **Compiler correctness.** A line is compiled without an error. If the code fits in the text, the
virtual machine runs it to the end with one live slot, which holds the value of the last expression;
the variables have the values that the evaluation gives them, and no other memory is modified. -/
theorem compiler_correct (G : Globals) (hG : G.InSpace) (functions : Functions) (es : List IntExpr)
    (hes : ∀ e ∈ es, e.Declared G) (vm : Vm) (v : Int) (ρ : Nat → Int)
    (heval : evalLine es (G.store vm.mem).toInt = some (v, ρ)) :
    ∃ code, finshCompilerRun G (syntaxTree es) = some (code, none) ∧ (code.length ≤ finshTextMax →
        ∃ vm', finshVmRun functions (segment code) vm = some vm' ∧ vm'.sp = 1 ∧
          (vm'.stack 0).toInt = v ∧ (∀ i < finshVariableMax, (G.store vm'.mem i).toInt = ρ i) ∧
          Untouched G vm.mem vm'.mem) := by
  rw [evalLine_toInt] at heval
  obtain ⟨⟨w, σ⟩, hword, hread⟩ := map_eq_some_iff.mp heval
  cases hread
  refine ⟨lineCode G es, finshCompilerRun_eq hes, fun hfit => ?_⟩
  have htext := length_segment hfit
  have hplaced : Placed (segment (lineCode G es)) 0 (segment (lineCode G es)) := prefix_refl _
  rw [segment, placed_append] at hplaced
  obtain ⟨m, hcode, hholds, huntouched⟩ :=
    block_lineCode htext hG hes hword (fun _ _ => rfl) hplaced.1
  -- Behind the code there are only zeros, which do nothing.
  have hall : Block functions (segment (lineCode G es)) 0 [] vm.mem finshTextMax [w] m :=
    (hcode.trans (Block.noops htext _ hplaced.2)).ends (by omega)
  obtain ⟨vm', hrun, hvm⟩ := hall.finshVmRun_eq
  refine ⟨vm', hrun, hvm.sp, congrArg BitVec.toInt hvm.live.1, ?_, ?_⟩
  · intro i hi
    rw [hvm.mem]
    exact congrArg BitVec.toInt (hholds i hi)
  rw [hvm.mem]
  exact huntouched

/-- One variable of type `int`. -/
def oneVariable : Globals where
  base := 0x20000000
  vars := [{ name := [0x61], type := .int }]

/-- `a = 7; a++ * 2 - -3`. -/
def twoStatements : List IntExpr :=
  [.assign 0 (.int 7), .bin .sub (.bin .mul (.post .inc 0) (.int 2)) (.negate (.int 3))]

theorem compiler_correct_twoStatements : ∃ code vm',
    finshCompilerRun oneVariable (syntaxTree twoStatements) = some (code, none) ∧ code.length = 54 ∧
      finshVmRun (fun _ _ _ => none) (segment code) ⟨fun _ => 0, 0, 0, fun _ => 0⟩ = some vm' ∧
      vm'.sp = 1 ∧ (vm'.stack 0).toInt = 17 ∧ (oneVariable.store vm'.mem 0).toInt = 8 := by
  have hes : ∀ e ∈ twoStatements, e.Declared oneVariable := by decide
  obtain ⟨code, hcode, hrun⟩ := compiler_correct oneVariable
    (by unfold Globals.InSpace wordSize; decide) (fun _ _ _ => none) twoStatements hes
    ⟨fun _ => 0, 0, 0, fun _ => 0⟩ 17 _ rfl
  have hlength : code.length = 54 := by
    obtain ⟨rfl, -⟩ := Prod.mk.inj (Option.some.inj hcode)
    decide
  obtain ⟨vm', hvm, hsp, hvalue, hvars, -⟩ := hrun (by rw [hlength]; decide)
  exact ⟨code, vm', hcode, hlength, hvm, hsp, hvalue, hvars 0 (by decide)⟩

end NbIot.Finsh
