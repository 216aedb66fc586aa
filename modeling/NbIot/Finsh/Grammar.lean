import NbIot.Finsh.Parser

/-! # Expressions in C

What C says about expressions without parentheses, independently of the parser. An `Expr` is a way
to read a sequence of tokens; it has to keep to the precedence and the associativity of its
operators (`Expr.Respects`). `Expr.Prescribed` is the tree of nodes for such a reading.

The sequences that have a reading are those of a `Sentence`: operands with their unary operators,
joined by binary operators, behind any number of operands followed by `=`.
-/

namespace NbIot.Finsh

/-! ## Operands and operators -/

/-- A token with what the parser reads of it: the value of a number or a character, the text of a
name or a string. -/
structure Lexeme where
  token : TokenType
  value : BitVec 32 := 0
  string : List UInt8 := []
  deriving DecidableEq

def Lexeme.IsOperand (t : Lexeme) : Prop :=
  t.token ∈ [.identifier, .valueInt, .valueLong, .valueChar, .valueString, .valueNull]
  deriving Decidable

inductive PostOp where
  | inc | dec
  deriving DecidableEq

def PostOp.token : PostOp → TokenType
  | inc => .inc
  | dec => .dec

def PostOp.node : PostOp → NodeType
  | inc => .inc
  | dec => .dec

inductive PreOp where
  | plus | minus | complement | inc | dec | value | address
  deriving DecidableEq

def PreOp.token : PreOp → TokenType
  | plus => .add
  | minus => .sub
  | complement => .bitwise
  | inc => .inc
  | dec => .dec
  | value => .mul
  | address => .and

inductive BinOp where
  | or | xor | and | shl | shr | add | sub | mul | div | mod
  deriving DecidableEq

def BinOp.token : BinOp → TokenType
  | or => .or
  | xor => .xor
  | and => .and
  | shl => .shl
  | shr => .shr
  | add => .add
  | sub => .sub
  | mul => .mul
  | div => .div
  | mod => .mod

def BinOp.node : BinOp → NodeType
  | or => .or
  | xor => .xor
  | and => .and
  | shl => .shl
  | shr => .shr
  | add => .add
  | sub => .sub
  | mul => .mul
  | div => .div
  | mod => .mod

/-- How tightly a binary operator binds. An assignment has the level 0, a unary operator in front of
its operand 7, one behind it 8. -/
def BinOp.level : BinOp → Nat
  | or => 1
  | xor => 2
  | and => 3
  | shl | shr => 4
  | add | sub => 5
  | mul | div | mod => 6

lemma BinOp.level_bounds (op : BinOp) : 1 ≤ op.level ∧ op.level ≤ 6 := by
  cases op <;> decide

/-! ## Expressions and their tokens -/

inductive Expr where
  | atom (t : Lexeme)
  | post (op : PostOp) (e : Expr)
  | pre (op : PreOp) (e : Expr)
  | bin (op : BinOp) (l r : Expr)
  | assign (l r : Expr)

namespace Expr

def tokens : Expr → List Lexeme
  | atom t => [t]
  | post op e => e.tokens ++ [{ token := op.token }]
  | pre op e => { token := op.token } :: e.tokens
  | bin op l r => l.tokens ++ { token := op.token } :: r.tokens
  | assign l r => l.tokens ++ { token := .assign } :: r.tokens

def level : Expr → Nat
  | atom _ => 8
  | post _ _ => 8
  | pre _ _ => 7
  | bin op _ _ => op.level
  | assign _ _ => 0

/-- The expression keeps to the precedence and the associativity of C: binary operators associate to
the left, an assignment to the right, and what is assigned to is unary. -/
def Respects : Expr → Prop
  | atom t => t.IsOperand
  | post _ e => 8 ≤ e.level ∧ e.Respects
  | pre _ e => 7 ≤ e.level ∧ e.Respects
  | bin op l r => op.level ≤ l.level ∧ op.level < r.level ∧ l.Respects ∧ r.Respects
  | assign l r => 7 ≤ l.level ∧ l.Respects ∧ r.Respects

/-- The nodes of an expression. A plus sign has none, a minus sign has two. -/
def size : Expr → Nat
  | atom _ => 1
  | post _ e => e.size + 1
  | pre .plus e => e.size
  | pre .minus e => e.size + 2
  | pre _ e => e.size + 1
  | bin _ l r => l.size + r.size + 1
  | assign l r => l.size + r.size + 1

lemma size_pos (e : Expr) : 0 < e.size := by
  induction e with
  | pre op e ih => cases op <;> simp only [size] <;> omega
  | _ => simp [size]

end Expr

/-! ## Their trees -/

section

variable {σ η : Type} (H : Host σ η) (vars : List Var)

/-- A name that is a symbol, any literal. -/
def Known (t : Lexeme) : Prop :=
  t.token = .identifier → (resolve vars H.symbols (copyId H t.string)).isSome

/-- The heap with a copy of each string among the tokens, made in their order; `none` if one of them
finds no room. -/
def withStrings : η → List Lexeme → Option η
  | heap, [] => some heap
  | heap, t :: ts =>
    if t.token = .valueString then
      (H.newString heap t.string).bind fun new => withStrings new.2 ts
    else withStrings heap ts

/-- The node of an operand. The node of a string holds the address of the string. -/
def Leaf (t : Lexeme) (info : Info) : Prop :=
  match t.token with
  | .identifier => ∃ id idtype, resolve vars H.symbols (copyId H t.string) = some (id, idtype) ∧
      info = { nodeType := .id, idtype := idtype, id := id }
  | .valueInt => info = { nodeType := .valueInt, value := t.value }
  | .valueLong => info = { nodeType := .valueLong, value := t.value }
  | .valueChar => info = { nodeType := .valueChar, value := (t.value.setWidth 8).setWidth 32 }
  | .valueString => ∃ ptr, info = { nodeType := .valueString, value := ptr }
  | .valueNull => info = { nodeType := .valueNull }
  | _ => False

def PreOp.node : PreOp → NodeType
  | .plus => .unknown
  | .minus => .sub
  | .complement => .bitwise
  | .inc => .preinc
  | .dec => .predec
  | .value => .getvalue
  | .address => .getaddr

/-- `info` is the root of the tree for an expression and `child` the tree below it. A plus sign
stands for its operand, and `-x` for `0 - x`. -/
def Expr.Prescribed : Expr → Info → Tree → Prop
  | .atom t, info, child => Leaf H vars t info ∧ child = .nil
  | .post op e, info, child => ∃ i c, e.Prescribed i c ∧
      info = { nodeType := op.node } ∧ child = .node i c .nil
  | .pre .plus e, info, child => e.Prescribed info child
  | .pre .minus e, info, child => ∃ i c, e.Prescribed i c ∧ info = { nodeType := .sub } ∧
      child = .node { nodeType := .valueLong } .nil (.node i c .nil)
  | .pre op e, info, child => ∃ i c, e.Prescribed i c ∧
      info = { nodeType := op.node } ∧ child = .node i c .nil
  | .bin op l r, info, child => ∃ i c j d, l.Prescribed i c ∧ r.Prescribed j d ∧
      info = { nodeType := op.node } ∧ child = .node i c (.node j d .nil)
  | .assign l r, info, child => ∃ i c j d, l.Prescribed i c ∧ r.Prescribed j d ∧
      info = { nodeType := .assign } ∧ child = .node i c (.node j d .nil)

end

/-! ## Sentences, and their reading -/

/-- A name or a literal with its unary operators: those in front from left to right, those behind
from left to right. -/
structure Operand where
  pres : List PreOp
  atom : Lexeme
  posts : List PostOp
  isOperand : atom.IsOperand

namespace Operand

def tokens (o : Operand) : List Lexeme :=
  o.pres.map (fun op => { token := op.token }) ++
    o.atom :: o.posts.map fun op => { token := op.token }

/-- The operators behind an operand bind more tightly than those in front of it. -/
def reading (o : Operand) : Expr :=
  o.pres.foldr .pre (o.posts.foldl (fun e op => .post op e) (.atom o.atom))

lemma posts_spec (posts : List PostOp) (e : Expr) (hl : e.level = 8) (he : e.Respects) :
    (posts.foldl (fun e op => Expr.post op e) e).tokens
        = e.tokens ++ posts.map (fun op => { token := op.token }) ∧
      (posts.foldl (fun e op => Expr.post op e) e).level = 8 ∧
      (posts.foldl (fun e op => Expr.post op e) e).Respects := by
  induction posts generalizing e with
  | nil => exact ⟨by simp, hl, he⟩
  | cons op posts ih =>
    obtain ⟨htok, hlev, hres⟩ := ih (.post op e) rfl ⟨hl.ge, he⟩
    refine ⟨?_, hlev, hres⟩
    rw [List.foldl_cons, htok]
    simp [Expr.tokens]

lemma pres_spec (pres : List PreOp) (e : Expr) (hl : 7 ≤ e.level) (he : e.Respects) :
    (pres.foldr .pre e).tokens = pres.map (fun op => { token := op.token }) ++ e.tokens ∧
      7 ≤ (pres.foldr .pre e).level ∧ (pres.foldr .pre e).Respects := by
  induction pres with
  | nil => exact ⟨rfl, hl, he⟩
  | cons op pres ih =>
    obtain ⟨htok, hlev, hres⟩ := ih
    refine ⟨?_, le_rfl, hlev, hres⟩
    rw [List.foldr_cons, Expr.tokens, htok]
    rfl

lemma reading_spec (o : Operand) :
    o.reading.tokens = o.tokens ∧ 7 ≤ o.reading.level ∧ o.reading.Respects := by
  obtain ⟨ht, hl, hr⟩ := posts_spec o.posts (.atom o.atom) rfl o.isOperand
  obtain ⟨ht', hl', hr'⟩ := pres_spec o.pres _ (by omega) hr
  refine ⟨?_, hl', hr'⟩
  rw [reading, ht', ht]
  rfl

end Operand

structure Sentence where
  targets : List Operand
  first : Operand
  rest : List (BinOp × Operand)

/-- An operator and an operand behind an expression. The operator takes as its left operand what
binds at least as tightly at the end of the expression. -/
def Expr.attach (op : BinOp) (u : Expr) : Expr → Expr
  | .bin op' l r =>
    if op'.level < op.level then .bin op' l (attach op u r) else .bin op (.bin op' l r) u
  | e => .bin op e u

lemma Expr.attach_spec (op : BinOp) (u e : Expr) (hu : 7 ≤ u.level) (hur : u.Respects)
    (he : 1 ≤ e.level) (her : e.Respects) :
    (attach op u e).tokens = e.tokens ++ { token := op.token } :: u.tokens ∧
      min e.level op.level ≤ (attach op u e).level ∧ (attach op u e).Respects := by
  have hop := op.level_bounds
  -- an expression that binds at least as tightly becomes the left operand
  have htop : ∀ e : Expr, op.level ≤ e.level → e.Respects →
      (Expr.bin op e u).tokens = e.tokens ++ { token := op.token } :: u.tokens ∧
        min e.level op.level ≤ (Expr.bin op e u).level ∧ (Expr.bin op e u).Respects :=
    fun e h1 h2 => ⟨rfl, min_le_right _ _, h1, by omega, h2, hur⟩
  induction e with
  | atom t | post op' e _ | pre op' e _ => exact htop _ (by simp only [level]; omega) her
  | assign l r _ _ => simp [level] at he
  | bin op' l r _ ihr =>
    obtain ⟨hl, hr, hlr, hrr⟩ := her
    rw [attach]
    by_cases hlt : op'.level < op.level
    · obtain ⟨htok, hlev, hres⟩ := ihr (by omega) hrr
      rw [if_pos hlt]
      refine ⟨?_, min_le_left _ _, hl, by omega, hlr, hres⟩
      rw [tokens, htok]
      simp [tokens]
    rw [if_neg hlt]
    exact htop _ (by simp only [level]; omega) ⟨hl, hr, hlr, hrr⟩

namespace Sentence

def tokens (s : Sentence) : List Lexeme :=
  s.targets.flatMap (fun o => o.tokens ++ [{ token := .assign }]) ++ (s.first.tokens ++
    s.rest.flatMap fun x => { token := x.1.token } :: x.2.tokens)

def reading (s : Sentence) : Expr :=
  s.targets.foldr (fun o e => .assign o.reading e)
    (s.rest.foldl (fun e x => .attach x.1 x.2.reading e) s.first.reading)

lemma rest_spec (rest : List (BinOp × Operand)) (e : Expr) (hl : 1 ≤ e.level) (he : e.Respects) :
    (rest.foldl (fun e x => Expr.attach x.1 x.2.reading e) e).tokens
        = e.tokens ++ rest.flatMap (fun x => { token := x.1.token } :: x.2.tokens) ∧
      (rest.foldl (fun e x => Expr.attach x.1 x.2.reading e) e).Respects := by
  induction rest generalizing e with
  | nil => exact ⟨by simp, he⟩
  | cons x rest ih =>
    obtain ⟨hut, hul, hur⟩ := x.2.reading_spec
    obtain ⟨ht, hl', hr⟩ := Expr.attach_spec x.1 x.2.reading e hul hur hl he
    have hop := x.1.level_bounds
    obtain ⟨htok, hres⟩ := ih _ (by omega) hr
    refine ⟨?_, hres⟩
    rw [List.foldl_cons, htok, ht, hut]
    simp

lemma targets_spec (targets : List Operand) (e : Expr) (he : e.Respects) :
    (targets.foldr (fun o e => Expr.assign o.reading e) e).tokens
        = targets.flatMap (fun o => o.tokens ++ [{ token := .assign }]) ++ e.tokens ∧
      (targets.foldr (fun o e => Expr.assign o.reading e) e).Respects := by
  induction targets with
  | nil => exact ⟨rfl, he⟩
  | cons o targets ih =>
    obtain ⟨hot, hol, hor⟩ := o.reading_spec
    obtain ⟨htok, hres⟩ := ih
    refine ⟨?_, hol, hor, hres⟩
    rw [List.foldr_cons, Expr.tokens, htok, hot]
    simp

lemma reading_spec (s : Sentence) : s.reading.tokens = s.tokens ∧ s.reading.Respects := by
  obtain ⟨hft, hfl, hfr⟩ := s.first.reading_spec
  obtain ⟨htok, hres⟩ := rest_spec s.rest s.first.reading (by omega) hfr
  obtain ⟨htok', hres'⟩ := targets_spec s.targets _ hres
  refine ⟨?_, hres'⟩
  rw [reading, htok', htok, hft]
  rfl

end Sentence

end NbIot.Finsh
