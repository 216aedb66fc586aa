import NbIot.Finsh.Grammar

/-! # The steps of the parser

What the routines of the parser do between two calls of each other: they read a token, hand it back,
or build a node.

* `At` says which tokens the parser has still to read. A token that was handed back is the first of
  them, so the routines never see the difference.
* `Grown` compares two states of the parser: no error was reported, the symbols are the same, and
  the nodes in use are those from before and the ones up to a given number.
-/

namespace NbIot.Finsh

open Function

section

variable {σ η : Type} (H : Host σ η)

lemma get_apply (p : Parser σ η) :
    (get : StateT (Parser σ η) (Except Stop) (Parser σ η)) p = .ok (p, p) := rfl

/-! ## What the lexer yields -/

/-- The token behind which the lexer is in the state `s` is `t`. -/
def Shows (s : σ) (t : Lexeme) : Prop :=
  match t.token with
  | .valueInt | .valueLong | .valueChar => H.value s = t.value
  | .identifier | .valueString => Lexer.cstring (H.string s) = t.string
  | _ => True

/-- From the state `s` the lexer returns the tokens `ts` without an error and is then in the state
`s'`. -/
def Yields : σ → List Lexeme → σ → Prop
  | s, [], s' => s = s'
  | s, t :: ts, s' => (H.tokenRun s).1 = t.token ∧ (H.tokenRun s).2.1 = none ∧
      Shows H (H.tokenRun s).2.2 t ∧ Yields (H.tokenRun s).2.2 ts s'

instance (s : σ) (t : Lexeme) : Decidable (Shows H s t) := by
  unfold Shows
  split <;> infer_instance

instance decidableYields [DecidableEq σ] : ∀ s ts s', Decidable (Yields H s ts s')
  | s, [], s' => decEq s s'
  | s, _ :: ts, s' =>
    have := decidableYields (H.tokenRun s).2.2 ts s'
    inferInstanceAs (Decidable (_ ∧ _ ∧ _ ∧ _))

/-- The parser has just read `t` and has still to read `ts`. -/
structure Took (p : Parser σ η) (t : Lexeme) (ts : List Lexeme) (s' : σ) : Prop where
  current : p.currentToken = t.token
  shows : Shows H p.token t
  yields : Yields H p.token ts s'

/-- The parser has still to read `ts`. -/
def At (p : Parser σ η) (ts : List Lexeme) (s' : σ) : Prop :=
  (p.replay = false ∧ Yields H p.token ts s') ∨
    (p.replay = true ∧ ∃ t ts', ts = t :: ts' ∧ Took H p t ts' s')

structure Kept (p p' : Parser σ η) : Prop where
  heap : p'.heap = p.heap
  root : p'.root = p.root
  nodes : p'.nodes = p.nodes
  vars : p'.vars = p.vars
  errno : p'.errno = p.errno

variable {child : Tree} {info : Info} {k : Nat} {nodes : NodeTable} {p' : Parser σ η}

lemma Kept.trans {p p'' : Parser σ η} (h : Kept p p') (h' : Kept p' p'') : Kept p p'' :=
  ⟨h'.heap.trans h.heap, h'.root.trans h.root, h'.nodes.trans h.nodes, h'.vars.trans h.vars,
    h'.errno.trans h.errno⟩

variable {H} {p : Parser σ η} {t : Lexeme} {ts : List Lexeme} {s' : σ}

lemma At.next (h : At H p (t :: ts) s') :
    (p.next H).replay = false ∧ Took H (p.next H) t ts s' ∧ Kept p (p.next H) := by
  rcases h with ⟨hr, htok, herr, hshows, hrest⟩ | ⟨hr, t', ts', heq, htook⟩
  · -- a new token from the lexer
    have hnext : p.next H = { p with
        token := (H.tokenRun p.token).2.2
        currentToken := (H.tokenRun p.token).1 } := by
      rw [Parser.next, if_neg (by simp [hr])]
      simp [herr]
    rw [hnext]
    exact ⟨hr, ⟨htok, hshows, hrest⟩, rfl, rfl, rfl, rfl, rfl⟩
  -- the token that was handed back
  obtain ⟨rfl, rfl⟩ := List.cons.inj heq
  have hnext : p.next H = { p with replay := false } := by rw [Parser.next, if_pos hr]
  rw [hnext]
  exact ⟨rfl, ⟨htook.current, htook.shows, htook.yields⟩, rfl, rfl, rfl, rfl, rfl⟩

lemma At.nextToken (h : At H p (t :: ts) s') : Finsh.nextToken H p = .ok (t.token, p.next H) := by
  rw [Finsh.nextToken, h.next.2.1.current]

lemma Took.at (h : Took H p t ts s') (hr : p.replay = false) : At H p ts s' := .inl ⟨hr, h.yields⟩

lemma Took.replay (h : Took H p t ts s') : At H { p with replay := true } (t :: ts) s' :=
  Or.inr ⟨rfl, t, ts, rfl, h.current, h.shows, h.yields⟩

lemma kept_replay (p : Parser σ η) : Kept p { p with replay := true } := ⟨rfl, rfl, rfl, rfl, rfl⟩

/-! ## New nodes -/

/-- The table after a new node `k` with the first child `a`, whose sibling is `b`. -/
def sysNode (nodes : NodeTable) (k : Nat) (type : NodeType) (a : Nat) (b : Option Nat) :
    NodeTable := fun j =>
  if j = a then { nodes a with sibling := b }
  else if j = k then { nodeType := type, child := some a }
  else nodes j

lemma makeSysNode_eq {a : Nat} (hp : Packed p.nodes k) (hk : k < finshNodeMax) (ha : a < k)
    (type : NodeType) (b : Option Nat) :
    makeSysNode type (some a) b p
      = .ok (some k, { p with nodes := sysNode p.nodes k type a b }) := by
  have hne : a ≠ k := ha.ne
  have hblank := hp.2 k le_rfl
  have htable : update (update (update p.nodes k
      { p.nodes k with nodeType := type }) k { nodeType := type, child := some a }) a
      { p.nodes a with sibling := b } = sysNode p.nodes k type a b := by
    funext j
    simp only [sysNode, update_apply]
    split
    · rfl
    split <;> rfl
  rw [← htable]
  simp only [makeSysNode, nodeAllocate, hp.allocateIndex hk, writeNode, bind, StateT.bind,
    Except.bind, update_self, hblank, update_of_ne hne]
  rfl

lemma packed_sysNode {a : Nat} (hp : Packed nodes k) (ha : a < k) {type : NodeType}
    (htype : type ≠ .unknown) (b : Option Nat) : Packed (sysNode nodes k type a b) (k + 1) := by
  constructor
  · intro j hj
    rw [sysNode]
    split
    · exact hp.1 a ha
    split
    · exact htype
    exact hp.1 j (by omega)
  intro j hj
  rw [sysNode, if_neg (by omega), if_neg (by omega)]
  exact hp.2 j (by omega)

lemma built_one {lo : Nat} (h : Built nodes lo k info child) (type : NodeType) :
    Built (sysNode nodes k type (k - 1) none) lo (k + 1) { nodeType := type }
      (.node info child .nil) := by
  have hlt := h.1
  -- the sibling of the child was `RT_NULL` before
  have hold : ∀ j, lo ≤ j → j < k → sysNode nodes k type (k - 1) none j = nodes j := by
    intro j _ hj
    obtain ⟨c, hroot, -⟩ := h.2
    rw [sysNode]
    by_cases heq : j = k - 1
    · rw [if_pos heq, heq, hroot]
    rw [if_neg heq, if_neg (by omega)]
  refine ⟨by omega, some (k - 1), ?_, ?_⟩
  · rw [Nat.add_sub_cancel, sysNode, if_neg (by omega), if_pos rfl]
  exact (h.congr hold).spans

lemma built_two {lo lo1 hi1 lo2 hi2 : Nat} {info1 info2 : Info} {child1 child2 : Tree}
    (h₁ : Built nodes lo1 hi1 info1 child1) (h₂ : Built nodes lo2 hi2 info2 child2)
    (hin : lo ≤ lo1 ∧ lo ≤ lo2 ∧ hi1 ≤ k ∧ hi2 ≤ k) (hapart : hi1 ≤ lo2 ∨ hi2 ≤ lo1)
    (type : NodeType) :
    Built (sysNode nodes k type (hi1 - 1) (some (hi2 - 1))) lo (k + 1) { nodeType := type }
      (.node info1 child1 (.node info2 child2 .nil)) := by
  have hlt1 := h₁.1
  have hlt2 := h₂.1
  have hother : ∀ j, j ≠ hi1 - 1 → j < k →
      sysNode nodes k type (hi1 - 1) (some (hi2 - 1)) j = nodes j := by
    intro j hj hjk
    rw [sysNode, if_neg hj, if_neg (by omega)]
  obtain ⟨-, c, hroot, hspan⟩ := h₁
  have hfirst : sysNode nodes k type (hi1 - 1) (some (hi2 - 1)) (hi1 - 1)
      = ⟨info1, some (hi2 - 1), c⟩ := by rw [sysNode, if_pos rfl, hroot]
  have hsecond := (h₂.congr (fun j h1 h2 => hother j (by omega) (by omega))).spans
  refine ⟨by omega, some (hi1 - 1), ?_, ?_⟩
  · rw [Nat.add_sub_cancel, sysNode, if_neg (by omega), if_pos rfl]
  refine ⟨⟨by omega, by omega⟩, by rw [hfirst], ?_, ?_⟩
  · rw [hfirst]
    exact hspan.congr (fun j h1 h2 => hother j (by omega) (by omega)) (by omega) (by omega)
  rw [hfirst]
  exact hsecond.congr (fun _ _ _ => rfl) (by omega) (by omega)

/-- The table after a new node `k` without children. -/
def leafNode (nodes : NodeTable) (k : Nat) (info : Info) : NodeTable :=
  update nodes k { info with }

lemma packed_leafNode (hp : Packed nodes k)
    (hinfo : info.nodeType ≠ .unknown) : Packed (leafNode nodes k info) (k + 1) := by
  constructor
  · intro j hj
    by_cases heq : j = k
    · rw [leafNode, heq, update_self]
      exact hinfo
    rw [leafNode, update_of_ne heq]
    exact hp.1 j (by omega)
  intro j hj
  rw [leafNode, update_of_ne (by omega)]
  exact hp.2 j (by omega)

lemma built_leafNode (nodes : NodeTable) (k : Nat) (info : Info) :
    Built (leafNode nodes k info) k (k + 1) info .nil := by
  refine ⟨by omega, none, ?_, trivial⟩
  rw [Nat.add_sub_cancel, leafNode, update_self]

lemma newValue_eq (hp : Packed p.nodes k) (hk : k < finshNodeMax) (type : NodeType)
    (fill : Node → Node) (info : Info) (hfill : fill { nodeType := type } = { info with }) :
    newValue type fill p = .ok (some k, { p with nodes := leafNode p.nodes k info }) := by
  have hblank := hp.2 k le_rfl
  simp only [newValue, nodeAllocate, hp.allocateIndex hk, writeNode, bind, StateT.bind,
    Except.bind, update_self, hblank, hfill, update_idem, leafNode]
  rfl

lemma nodeNewId_eq (hp : Packed p.nodes k) (hk : k < finshNodeMax) {name : List UInt8}
    {id : Id} {idtype : BitVec 8} (hid : resolve p.vars H.symbols name = some (id, idtype)) :
    nodeNewId H name p = .ok (some k, { p with
      nodes := leafNode p.nodes k { nodeType := .id, idtype := idtype, id := id } }) := by
  have hblank := hp.2 k le_rfl
  simp only [nodeNewId, get_apply, nodeAllocate, hp.allocateIndex hk, hid, writeNode, bind,
    StateT.bind, Except.bind, update_self, hblank, update_idem, leafNode]
  rfl

lemma nodeNewString_eq (hp : Packed p.nodes k) (hk : k < finshNodeMax)
    {s : List UInt8} {ptr : BitVec 32} {heap : η} (hs : H.newString p.heap s = some (ptr, heap)) :
    nodeNewString H s p = .ok (some k, { p with
      nodes := leafNode p.nodes k { nodeType := .valueString, value := ptr }
      heap := heap }) := by
  have hblank := hp.2 k le_rfl
  simp only [nodeNewString, nodeAllocate, hp.allocateIndex hk, hs, writeNode, bind, StateT.bind,
    Except.bind, update_self, hblank, update_idem, leafNode]
  rfl

/-! ## What is left alone -/

/-- From `p` to `p'` no error was reported and no symbol changed; the first `k` nodes are as they
were, and the first `k'` are in use. -/
structure Grown (p p' : Parser σ η) (k k' : Nat) : Prop where
  errno : p'.errno = p.errno
  vars : p'.vars = p.vars
  root : p'.root = p.root
  packed : Packed p'.nodes k'
  old : ∀ j < k, p'.nodes j = p.nodes j

lemma Kept.grown {p : Parser σ η} (h : Kept p p') (hp : Packed p.nodes k) : Grown p p' k k :=
  ⟨h.errno, h.vars, h.root, h.nodes ▸ hp, fun _ _ => by rw [h.nodes]⟩

lemma Grown.trans {p p'' : Parser σ η} {m l k' : Nat} (h : Grown p p' k m)
    (h' : Grown p' p'' l k') (hle : k ≤ l) : Grown p p'' k k' :=
  ⟨h'.errno.trans h.errno, h'.vars.trans h.vars, h'.root.trans h.root, h'.packed, fun j hj =>
    (h'.old j (by omega)).trans (h.old j hj)⟩

end

end NbIot.Finsh
