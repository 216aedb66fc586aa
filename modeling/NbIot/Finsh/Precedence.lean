import NbIot.Finsh.Steps

/-! # Precedence in the parser

The routines of the parser, one for each level of precedence, build the tree that C prescribes.

The trees lean to the left, while a routine goes from left to right: when it has read the left
operand of an expression, it is in its loop and not in a call that returns that operand. So the
induction is about the rest of the loop. `Then` says of an expression that the routine, having read
it, is in its loop with the tree of the expression; `Direct` says that the routine returns that
tree.
-/

namespace NbIot.Finsh

open Fuel List

/-! ## Tokens that end a level -/

section

variable {σ η : Type} (H : Host σ η)

lemma levelOp_token (op : BinOp) : levelOp op.level op.token = some op.node := by
  cases op <;> rfl

variable {L : Nat} {q : Parser σ η}

lemma levelOp_token_of_ne {op : BinOp} (h : L ≠ op.level) : levelOp L op.token = none := by
  unfold levelOp
  split <;> cases op <;> first | rfl | exact absurd rfl h

/-- A token that does not continue an expression of the level `L`. -/
structure Ends (L : Nat) (t : TokenType) : Prop where
  op : ∀ M, L ≤ M → levelOp M t = none
  inc : t ≠ .inc
  dec : t ≠ .dec
  paren : t ≠ .leftParen

lemma Ends.mono {M : Nat} {t : TokenType} (h : Ends L t) (hle : L ≤ M) : Ends M t :=
  ⟨fun N hN => h.op N (hle.trans hN), h.inc, h.dec, h.paren⟩

lemma ends_binOp (op : BinOp) : Ends (op.level + 1) op.token :=
  ⟨fun M hM => levelOp_token_of_ne (by omega), by cases op <;> decide, by cases op <;> decide,
    by cases op <;> decide⟩

lemma ends_assign : Ends 1 .assign :=
  ⟨fun M _ => by unfold levelOp; split <;> rfl, by decide, by decide, by decide⟩

lemma ends_semicolon : Ends 1 .semicolon :=
  ⟨fun M _ => by unfold levelOp; split <;> rfl, by decide, by decide, by decide⟩

def Starts (t : Lexeme) : Prop := t.IsOperand ∨ ∃ op : PreOp, t.token = op.token

lemma first_token (e : Expr) (he : e.Respects) :
    ∃ t ts, e.tokens = t :: ts ∧ Starts t ∧ (8 ≤ e.level → t.IsOperand) := by
  induction e with
  | atom t => exact ⟨t, [], rfl, Or.inl he, fun _ => he⟩
  | post op e ih =>
    obtain ⟨t, ts, h, hs, htight⟩ := ih he.2
    exact ⟨t, _, by rw [Expr.tokens, h, cons_append], hs, fun _ => htight he.1⟩
  | pre op e ih => exact ⟨_, _, rfl, Or.inr ⟨op, rfl⟩, by simp [Expr.level]⟩
  | bin op l r ihl ihr =>
    obtain ⟨t, ts, h, hs, -⟩ := ihl he.2.2.1
    have := op.level_bounds
    exact ⟨t, _, by rw [Expr.tokens, h, cons_append], hs, by simp only [Expr.level]; omega⟩
  | assign l r ihl ihr =>
    obtain ⟨t, ts, h, hs, -⟩ := ihl he.2.1
    exact ⟨t, _, by rw [Expr.tokens, h, cons_append], hs, by simp [Expr.level]⟩

lemma Starts.ne {t : Lexeme} (h : Starts t) : t.token ≠ .leftParen ∧ t.token ≠ .semicolon := by
  rcases h with h | ⟨op, h⟩
  · rw [Lexeme.IsOperand] at h
    refine ⟨fun heq => ?_, fun heq => ?_⟩
    all_goals
      rw [heq] at h
      exact absurd h (by decide)
  rw [h]
  cases op <;> exact ⟨by decide, by decide⟩

/-! ## Strings -/

lemma withStrings_cons {t : Lexeme} (ht : t.token ≠ .valueString) (heap : η) (ts : List Lexeme) :
    withStrings H heap (t :: ts) = withStrings H heap ts :=
  if_neg ht

lemma withStrings_append (heap : η) (ts us : List Lexeme) :
    withStrings H heap (ts ++ us) = (withStrings H heap ts).bind (withStrings H · us) := by
  induction ts generalizing heap with
  | nil => rfl
  | cons t ts ih =>
    simp only [cons_append, withStrings, ih]
    split
    · rw [Option.bind_assoc]
    rfl

lemma withStrings_pre (op : PreOp) (e : Expr) (heap : η) :
    withStrings H heap (Expr.pre op e).tokens = withStrings H heap e.tokens :=
  withStrings_cons H (by cases op <;> simp [PreOp.token]) heap _

lemma withStrings_post (op : PostOp) (e : Expr) (heap : η) :
    withStrings H heap (Expr.post op e).tokens = withStrings H heap e.tokens := by
  rw [Expr.tokens, withStrings_append]
  have hop : ∀ heap, withStrings H heap [{ token := op.token }] = some heap := fun heap =>
    withStrings_cons H (by cases op <;> simp [PostOp.token]) heap []
  simp only [hop, Option.bind_fun_some]

lemma withStrings_join {op : Lexeme} (hop : op.token ≠ .valueString) (l r : Expr) (heap : η) :
    withStrings H heap (l.tokens ++ op :: r.tokens) =
      (withStrings H heap l.tokens).bind (withStrings H · r.tokens) := by
  rw [withStrings_append]
  simp only [withStrings_cons H hop]

/-! ## What it is to parse an expression -/

/-- The parser is in front of the tokens of `e`, whose names are known and for which there is room
in the heap and behind the first `k` nodes. The tokens `ts` follow. -/
structure Ready (p : Parser σ η) (k : Nat) (e : Expr) (ts : List Lexeme) (s' : σ) : Prop where
  before : At H p (e.tokens ++ ts) s'
  known : ∀ t ∈ e.tokens, Known H p.vars t
  room : (withStrings H p.heap e.tokens).isSome
  packed : Packed p.nodes k
  fits : k + e.size ≤ finshNodeMax

/-- The parser has read `e` and built its tree. -/
structure Parsed (p p' : Parser σ η) (k : Nat) (e : Expr) (ts : List Lexeme) (s' : σ) : Prop where
  behind : At H p' ts s'
  heap : withStrings H p.heap e.tokens = some p'.heap
  grown : Grown p p' k (k + e.size)
  built : ∃ info child, e.Prescribed H p.vars info child ∧ Built p'.nodes k (k + e.size) info child

/-- The routine returns the tree of `e`. -/
def Direct (routine : Nat → Parse σ η (Option Nat)) (e : Expr) (ts : List Lexeme) : Prop :=
  ∀ p k s', Ready H p k e ts s' →
    ∃ p', Settles routine p (some (k + e.size - 1)) p' ∧ Parsed H p p' k e ts s'

/-- The routine goes on with its loop and the tree of `e`. -/
def Then (routine : Nat → Parse σ η (Option Nat))
    (loop : Nat → Nat → Option Nat → Parse σ η (Option Nat)) (e : Expr) (ts : List Lexeme) : Prop :=
  ∀ p k s', Ready H p k e ts s' → ∃ p', Parsed H p p' k e ts s' ∧
      ∀ a q, SettlesLoop (fun i j => loop i j (some (k + e.size - 1))) p' a q →
        Settles routine p a q

variable {H} {p p' : Parser σ η} {k : Nat} {e : Expr} {t : Lexeme} {ts : List Lexeme} {s' : σ}
  {us : List Lexeme} {node new : Option Nat} {op : PostOp} {l r : Expr}

lemma At.withNodes {nodes : NodeTable} {heap : η} (h : At H p ts s') :
    At H { p with nodes := nodes, heap := heap } ts s' := by
  rcases h with h | ⟨hr, t, ts', heq, htook⟩
  · exact .inl h
  exact .inr ⟨hr, t, ts', heq, htook.current, htook.shows, htook.yields⟩

lemma Parsed.kept (h : Parsed H p p' k e us s') (hq : Kept p' q)
    (hat : At H q ts s') : Parsed H p q k e ts s' := by
  obtain ⟨info, child, hpre, hb⟩ := h.built
  refine ⟨hat, by rw [hq.heap]; exact h.heap, ?_, info, child, hpre, by rw [hq.nodes]; exact hb⟩
  exact h.grown.trans (hq.grown h.grown.packed) (by omega)

lemma Ready.skip (h : Ready H p k e ts s') (hq : Kept p p') (hat : At H p' (e.tokens ++ ts) s') :
    Ready H p' k e ts s' :=
  ⟨hat, fun t ht => by rw [hq.vars]; exact h.known t ht, by rw [hq.heap]; exact h.room,
    by rw [hq.nodes]; exact h.packed, h.fits⟩

lemma Parsed.skip (h : Parsed H p' q k e ts s') (hq : Kept p p') : Parsed H p q k e ts s' := by
  obtain ⟨info, child, hpre, hb⟩ := h.built
  refine ⟨h.behind, by rw [← hq.heap]; exact h.heap, ⟨h.grown.errno.trans hq.errno,
    h.grown.vars.trans hq.vars, h.grown.root.trans hq.root, h.grown.packed, fun j hj => ?_⟩,
    info, child, ?_, hb⟩
  · rw [h.grown.old j hj, hq.nodes]
  rw [← hq.vars]; exact hpre

/-! ## Loops -/

lemma binaryLoop_ends {op : TokenType → Option NodeType} (hat : At H p (t :: ts) s')
    (hop : op t.token = none) (operand : Parse σ η (Option Nat)) (n : Nat) (node : Option Nat) :
    binaryLoop H op operand (n + 1) node p
      = .ok (node, p.peek H) := by
  rw [binaryLoop, bind_of_ok hat.nextToken, hop]
  rfl

lemma binaryLoop_turn {op : TokenType → Option NodeType} {type : NodeType} {r : Parser σ η}
    {operand : Parse σ η (Option Nat)} {y : Nat} (hat : At H p (t :: ts) s')
    (hop : op t.token = some type) (hy : operand (p.next H) = .ok (some y, q))
    (hnode : makeSysNode type node (some y) q = .ok (new, r)) (n : Nat) :
    binaryLoop H op operand (n + 1) node p = binaryLoop H op operand n new r := by
  rw [binaryLoop, bind_of_ok hat.nextToken, hop]
  dsimp only
  rw [bind_of_ok hy]
  exact bind_of_ok hnode _

lemma postfixLoop_ends (hat : At H p (t :: ts) s') (hinc : t.token ≠ .inc) (hdec : t.token ≠ .dec)
    (hparen : t.token ≠ .leftParen) (params : Parse σ η (Option Nat)) (n : Nat)
    (node : Option Nat) : postfixLoop H params (n + 1) node p = .ok (node, p.peek H) := by
  rw [postfixLoop, bind_of_ok hat.nextToken]
  cases htok : t.token with
  | inc => exact absurd htok hinc
  | dec => exact absurd htok hdec
  | leftParen => exact absurd htok hparen
  | _ => rfl

lemma postfixLoop_turn (hat : At H p ({ token := op.token } :: ts) s')
    (hnode : makeSysNode op.node node none (p.next H) = .ok (new, q))
    (params : Parse σ η (Option Nat)) (n : Nat) :
    postfixLoop H params (n + 1) node p = postfixLoop H params n new q := by
  rw [postfixLoop, bind_of_ok hat.nextToken]
  cases op with
  | inc => exact bind_of_ok hnode _
  | dec => exact bind_of_ok hnode _

lemma Then.direct {routine : Nat → Parse σ η (Option Nat)}
    {loop : Nat → Nat → Option Nat → Parse σ η (Option Nat)} (h : Then H routine loop e (t :: ts))
    (hends : ∀ p s', At H p (t :: ts) s' →
      ∀ i j node, loop i (j + 1) node p = .ok (node, p.peek H)) :
    Direct H routine e (t :: ts) := by
  intro p k s' hready
  obtain ⟨p', hparsed, hrest⟩ := h p k s' hready
  obtain ⟨-, htook, hkept⟩ := hparsed.behind.next
  refine ⟨p'.peek H, hrest _ _ ⟨1, fun i j _ hj => ?_⟩,
    hparsed.kept (hkept.trans (kept_replay _)) htook.replay⟩
  obtain ⟨j, rfl⟩ : ∃ j', j = j' + 1 := ⟨j - 1, by omega⟩
  exact hends p' s' hparsed.behind i j _

lemma Then.direct_level (h : Then H (procLevel H L) (levelLoop H L) e (t :: ts))
    (ht : levelOp L t.token = none) : Direct H (procLevel H L) e (t :: ts) :=
  h.direct fun _ _ hat _ _ _ => binaryLoop_ends hat ht _ _ _

lemma Direct.then_level (h1 : 1 ≤ L) (h6 : L ≤ 6)
    (h : Direct H (procLevel H (L + 1)) e ts) : Then H (procLevel H L) (levelLoop H L) e ts := by
  intro p k s' hready
  obtain ⟨p', hset, hparsed⟩ := h p k s' hready
  refine ⟨p', hparsed, fun a q hloop => ?_⟩
  exact Settles.call (procLevel_succ H h1 h6) (hset.bind hloop.settles)

lemma Direct.lower {M : Nat} (hM : M ≤ 7)
    (h : ∀ t ts, Ends M t.token → Direct H (procLevel H M) e (t :: ts)) (h1 : 1 ≤ L)
    (hL : L ≤ M) : ∀ t ts, Ends L t.token → Direct H (procLevel H L) e (t :: ts) := by
  induction hL using Nat.decreasingInduction with
  | self => exact h
  | of_succ L hlt ih =>
    intro t ts ht
    have hnext := ih (by omega) t ts (ht.mono (by omega))
    exact (hnext.then_level h1 (by omega)).direct_level (ht.op L le_rfl)

/-! ## Operands -/

lemma procIdentifier_eq (hat : At H p (t :: ts) s') (ht : t.token = .identifier) :
    procIdentifier H p = .ok (copyId H t.string, p.next H) := by
  have hmatch : matchToken H .identifier p = .ok ((), p.next H) := by
    rw [matchToken, bind_of_ok hat.nextToken, ht]
    rfl
  have hshows := hat.next.2.1.shows
  rw [Shows, ht] at hshows
  rw [procIdentifier, bind_of_ok hmatch, ← hshows]
  rfl

lemma parsed_leaf {info : Info} (hq : Kept p q) (hp : Packed p.nodes k) (hat : At H q ts s')
    (hleaf : Leaf H p.vars t info) (hinfo : info.nodeType ≠ .unknown) (heap : η)
    (hheap : withStrings H p.heap [t] = some heap) :
    Parsed H p { q with nodes := leafNode q.nodes k info, heap := heap } k (.atom t) ts s' := by
  have hp' : Packed q.nodes k := by rw [hq.nodes]; exact hp
  refine ⟨hat.withNodes, hheap, ⟨hq.errno, hq.vars, hq.root, packed_leafNode hp' hinfo,
    fun j hj => ?_⟩, info, .nil, ⟨hleaf, rfl⟩, built_leafNode _ _ _⟩
  show leafNode q.nodes k info j = p.nodes j
  rw [leafNode, Function.update_of_ne (by omega), hq.nodes]

lemma direct_value (htok : t.token ≠ .valueString) (type : NodeType) (fill : Node → Node)
    (info : Info) (hfill : fill { nodeType := type } = { info with })
    (hleaf : ∀ vars, Leaf H vars t info)
    (hinfo : info.nodeType ≠ .unknown)
    (hrun : ∀ p s' n, At H p (t :: ts) s' → Shows H (p.next H).token t →
      procPrimaryExpr H (n + 1) p = newValue type fill (p.next H)) :
    Direct H (procPrimaryExpr H) (.atom t) ts := by
  intro p k s' hready
  have hat : At H p (t :: ts) s' := hready.before
  obtain ⟨hreplay, htook, hkept⟩ := hat.next
  have hp : Packed (p.next H).nodes k := by rw [hkept.nodes]; exact hready.packed
  refine ⟨{ p.next H with nodes := leafNode (p.next H).nodes k info },
    settles_of_succ 0 fun n _ => ?_,
    parsed_leaf hkept hready.packed (htook.at hreplay) (hleaf _) hinfo _
      (by rw [withStrings_cons H htok, hkept.heap]; rfl)⟩
  rw [hrun p s' n hat htook.shows, newValue_eq hp hready.fits type fill info hfill]
  rfl

lemma direct_name (htok : t.token = .identifier) : Direct H (procPrimaryExpr H) (.atom t) ts := by
  intro p k s' hready
  have hat : At H p (t :: ts) s' := hready.before
  have hknown := hready.known t (mem_singleton.mpr rfl)
  obtain ⟨⟨id, idtype⟩, hid⟩ := Option.isSome_iff_exists.mp (hknown htok)
  obtain ⟨-, htook, hkept⟩ := hat.next
  obtain ⟨hreplay, htook2, hkept2⟩ := htook.replay.next
  set q := (p.peek H).next H
  have hq : Kept p q := (hkept.trans (kept_replay _)).trans hkept2
  have hp : Packed q.nodes k := by rw [hq.nodes]; exact hready.packed
  have hid' : resolve q.vars H.symbols (copyId H t.string) = some (id, idtype) := by
    rw [hq.vars]; exact hid
  have hleaf : Leaf H p.vars t { nodeType := .id, idtype := idtype, id := id } := by
    rw [Leaf, htok]; exact ⟨id, idtype, hid, rfl⟩
  refine ⟨_, settles_of_succ 0 fun n _ => ?_,
    parsed_leaf hq hready.packed (htook2.at hreplay) hleaf (by simp) q.heap
      (by rw [withStrings_cons H (by simp [htok]), hq.heap]; rfl)⟩
  rw [procPrimaryExpr, bind_of_ok hat.nextToken, htok]
  exact (bind_of_ok (procIdentifier_eq htook.replay htok) _).trans
    (nodeNewId_eq hp hready.fits hid')

lemma direct_string (htok : t.token = .valueString) :
    Direct H (procPrimaryExpr H) (.atom t) ts := by
  intro p k s' hready
  have hat : At H p (t :: ts) s' := hready.before
  have hroom := hready.room
  obtain ⟨hreplay, htook, hkept⟩ := hat.next
  have hshows := htook.shows
  rw [Shows, htok] at hshows
  rw [Expr.tokens, withStrings, if_pos htok] at hroom
  obtain ⟨⟨ptr, heap⟩, hptr⟩ := Option.isSome_iff_exists.mp (Option.isSome_of_isSome_bind hroom)
  have hp : Packed (p.next H).nodes k := by rw [hkept.nodes]; exact hready.packed
  have hleaf : Leaf H p.vars t { nodeType := .valueString, value := ptr } := by
    rw [Leaf, htok]; exact ⟨ptr, rfl⟩
  refine ⟨_, settles_of_succ 0 fun n _ => ?_,
    parsed_leaf hkept hready.packed (htook.at hreplay) hleaf (by simp) heap
      (by rw [withStrings, if_pos htok, hptr]; rfl)⟩
  rw [procPrimaryExpr, bind_of_ok hat.nextToken, htok]
  rw [← hkept.heap] at hptr
  refine Eq.trans ?_ (nodeNewString_eq hp hready.fits hptr)
  rw [← hshows]
  rfl

lemma Lexeme.IsOperand.cases (h : t.IsOperand) :
    t.token = .identifier ∨ t.token = .valueInt ∨ t.token = .valueLong ∨
      t.token = .valueChar ∨ t.token = .valueString ∨ t.token = .valueNull := by
  simpa [Lexeme.IsOperand] using h

lemma direct_atom (ht : t.IsOperand) (ts : List Lexeme) :
    Direct H (procPrimaryExpr H) (.atom t) ts := by
  rcases ht.cases with htok | htok | htok | htok | htok | htok
  · exact direct_name htok
  · refine direct_value (by simp [htok]) .valueInt (fun n => { n with value := t.value }) _ rfl
      (fun _ => by rw [Leaf, htok]) (by simp) fun p s' n hat hshows => ?_
    rw [Shows, htok] at hshows
    rw [procPrimaryExpr, bind_of_ok hat.nextToken, htok, ← hshows]
    rfl
  · refine direct_value (by simp [htok]) .valueLong (fun n => { n with value := t.value }) _ rfl
      (fun _ => by rw [Leaf, htok]) (by simp) fun p s' n hat hshows => ?_
    rw [Shows, htok] at hshows
    rw [procPrimaryExpr, bind_of_ok hat.nextToken, htok, ← hshows]
    rfl
  · -- the other three bytes of the union are those of a node not yet used
    refine direct_value (by simp [htok]) .valueChar (fun n => { n with
        value := n.value &&& 0xffffff00#32 ||| (t.value.setWidth 8).setWidth 32 })
      { nodeType := .valueChar, value := (t.value.setWidth 8).setWidth 32 } (by simp)
      (fun _ => by rw [Leaf, htok]) (by simp) fun p s' n hat hshows => ?_
    rw [Shows, htok] at hshows
    rw [procPrimaryExpr, bind_of_ok hat.nextToken, htok, ← hshows]
    rfl
  · exact direct_string htok
  refine direct_value (by simp [htok]) .valueNull (fun n => { n with value := 0 }) _ rfl
    (fun _ => by rw [Leaf, htok]) (by simp) fun p s' n hat _ => ?_
  rw [procPrimaryExpr, bind_of_ok hat.nextToken, htok]
  rfl

/-! ## Postfix operators -/

lemma parsed_sysNode {a m : Nat} {b : Option Nat} {child : Tree} (hat : At H p' ts s')
    (hheap : withStrings H p.heap e.tokens = some p'.heap)
    (hgrown : Grown p p' k m) (hfits : m < finshNodeMax) (ha : k ≤ a ∧ a < m) {type : NodeType}
    (htype : type ≠ .unknown) (hsize : k + e.size = m + 1)
    (hpre : e.Prescribed H p.vars { nodeType := type } child)
    (hb : Built (sysNode p'.nodes m type a b) k (m + 1) { nodeType := type } child) :
    ∃ q, makeSysNode type (some a) b p' = .ok (some (k + e.size - 1), q) ∧
      Parsed H p q k e ts s' := by
  refine ⟨{ p' with nodes := sysNode p'.nodes m type a b }, ?_, hat.withNodes, hheap,
    ⟨hgrown.errno, hgrown.vars, hgrown.root, ?_, fun j hj => ?_⟩, _, _, hpre, hsize ▸ hb⟩
  · rw [makeSysNode_eq hgrown.packed hfits ha.2, hsize, Nat.add_sub_cancel]
  · rw [hsize]
    exact packed_sysNode hgrown.packed ha.2 htype b
  show sysNode _ _ _ _ _ j = _
  rw [sysNode, if_neg (by omega), if_neg (by omega)]
  exact hgrown.old j hj

lemma Parsed.over (h : Parsed H p p' k e ts s') (e' : Expr) (type : NodeType)
    (hheap : withStrings H p.heap e'.tokens = withStrings H p.heap e.tokens)
    (htype : type ≠ .unknown) (hfits : k + e.size < finshNodeMax) (hsize : e'.size = e.size + 1)
    (hpre : ∀ i c, e.Prescribed H p.vars i c →
      e'.Prescribed H p.vars { nodeType := type } (.node i c .nil)) :
    ∃ q, makeSysNode type (some (k + e.size - 1)) none p' = .ok (some (k + e'.size - 1), q) ∧
      Parsed H p q k e' ts s' := by
  have hpos := e.size_pos
  obtain ⟨info, child, hinfo, hb⟩ := h.built
  exact parsed_sysNode h.behind (hheap.trans h.heap) h.grown hfits (by omega) htype (by omega)
    (hpre info child hinfo) (built_one hb type)

lemma Then.post (h : Then H (procPostfixExpr H) (postLoop H) e ({ token := op.token } :: ts)) :
    Then H (procPostfixExpr H) (postLoop H) (.post op e) ts := by
  intro p k s' hready
  have hbefore : At H p (e.tokens ++ { token := op.token } :: ts) s' := by
    have := hready.before
    rwa [Expr.tokens, append_assoc] at this
  have hfits : k + e.size < finshNodeMax := hready.fits
  obtain ⟨p1, hparsed, hrest⟩ := h p k s' ⟨hbefore, fun t ht => hready.known t
    (mem_append_left _ ht), by rw [← withStrings_post H op]; exact hready.room, hready.packed,
    hfits.le⟩
  obtain ⟨hreplay, htook, hkept⟩ := hparsed.behind.next
  -- the tree of `e` in the state in which the operator has been read
  have hparsed' := hparsed.kept hkept (htook.at hreplay)
  obtain ⟨q, hnode, hq⟩ := hparsed'.over (.post op e) op.node (withStrings_post H op e _)
    (by cases op <;> simp [PostOp.node]) hfits rfl (fun i c hi => ⟨i, c, hi, rfl, rfl⟩)
  refine ⟨q, hq, fun a r hloop => hrest a r (SettlesLoop.turn (k := 0) (fun i j _ => ?_) hloop)⟩
  exact postfixLoop_turn hparsed.behind hnode _ j

lemma then_tight (e : Expr) (he : e.Respects) (hl : 8 ≤ e.level) (ts : List Lexeme) :
    Then H (procPostfixExpr H) (postLoop H) e ts := by
  induction e generalizing ts with
  | atom t =>
    intro p k s' hready
    obtain ⟨p', hset, hparsed⟩ := direct_atom he ts p k s' hready
    exact ⟨p', hparsed, fun a q hloop =>
      Settles.call (procPostfixExpr_succ H) (hset.bind hloop.settles)⟩
  | post op e ih => exact (ih he.2 he.1 _).post
  | pre op e ih | assign l r ihl ihr => exact absurd hl (by simp [Expr.level])
  | bin op l r ihl ihr =>
    have := op.level_bounds
    exact absurd hl (by simp only [Expr.level]; omega)

lemma direct_tight (e : Expr) (he : e.Respects) (hl : 8 ≤ e.level)
    (ht : Ends 8 t.token) (ts : List Lexeme) : Direct H (procPostfixExpr H) e (t :: ts) :=
  (then_tight e he hl _).direct fun _ _ hat _ _ _ =>
    postfixLoop_ends hat ht.inc ht.dec ht.paren _ _ _

/-! ## Prefix operators -/

lemma Ready.reread (h : Ready H p k e ts s') (htokens : e.tokens = t :: us) :
    At H p (t :: (us ++ ts)) s' ∧ Kept p (p.peek H) ∧ Ready H (p.peek H) k e ts s' := by
  have hat : At H p (t :: (us ++ ts)) s' := by
    have := h.before
    rwa [htokens] at this
  obtain ⟨-, htook, hkept⟩ := hat.next
  have hback : At H (p.peek H) (e.tokens ++ ts) s' := by
    rw [htokens]
    exact htook.replay
  have hkept' := hkept.trans (kept_replay (p.next H))
  exact ⟨hat, hkept', h.skip hkept' hback⟩

lemma Direct.reread {routine routine' : Nat → Parse σ η (Option Nat)}
    (htokens : e.tokens = t :: us) (h : Direct H routine e ts)
    (hrun : ∀ p s', At H p (t :: (us ++ ts)) s' → ∀ n, routine' (n + 1) p = routine n (p.peek H)) :
    Direct H routine' e ts := by
  intro p k s' hready
  obtain ⟨hat, hkept, hready'⟩ := hready.reread htokens
  obtain ⟨p', ⟨m, hm⟩, hparsed⟩ := h _ k s' hready'
  exact ⟨p', settles_of_succ m fun n hn => (hrun p s' hat n).trans (hm n hn), hparsed.skip hkept⟩

lemma Direct.cast (he : e.Respects) (h : Direct H (procUnaryExpr H) e ts) :
    Direct H (procCastExpr H) e ts := by
  obtain ⟨t, us, htokens, hstarts, -⟩ := first_token e he
  refine h.reread htokens fun p s' hat n => ?_
  rw [procCastExpr, bind_of_ok hat.nextToken, if_neg hstarts.ne.1]
  rfl

lemma Direct.unary (he : e.Respects) (hl : 8 ≤ e.level) (h : Direct H (procPostfixExpr H) e ts) :
    Direct H (procUnaryExpr H) e ts := by
  obtain ⟨t, us, htokens, -, hoperand⟩ := first_token e he
  refine h.reread htokens fun p s' hat n => ?_
  rw [procUnaryExpr, bind_of_ok hat.nextToken]
  rcases (hoperand hl).cases with h | h | h | h | h | h <;> rw [h] <;> rfl

lemma Parsed.negate (h : Parsed H p p' k e ts s') (hfits : k + e.size + 1 < finshNodeMax) :
    ∃ q r, nodeNewLong 0 p' = .ok (some (k + e.size), q) ∧
      makeSysNode .sub (some (k + e.size)) (some (k + e.size - 1)) q
        = .ok (some (k + (Expr.pre .minus e).size - 1), r) ∧
      Parsed H p r k (.pre .minus e) ts s' := by
  obtain ⟨info, child, hinfo, hb⟩ := h.built
  have hp := h.grown.packed
  set zero := leafNode p'.nodes (k + e.size) { nodeType := .valueLong } with hzero
  have hold : ∀ j < k + e.size, zero j = p'.nodes j := fun j hj => by
    rw [hzero, leafNode, Function.update_of_ne (by omega)]
  have hgrown : Grown p { p' with nodes := zero } k (k + e.size + 1) :=
    ⟨h.grown.errno, h.grown.vars, h.grown.root, packed_leafNode hp (by simp),
      fun j hj => (hold j (by omega)).trans (h.grown.old j hj)⟩
  have hbehind : At H { p' with nodes := zero } ts s' := h.behind.withNodes
  obtain ⟨r, hnode, hr⟩ := parsed_sysNode (e := .pre .minus e) hbehind
    ((withStrings_pre H .minus e _).trans h.heap) hgrown hfits (by omega) (by simp) rfl
    ⟨info, child, hinfo, rfl, rfl⟩
    (built_two (built_leafNode _ _ _) (hb.congr fun j _ => hold j) (by omega) (by omega) .sub)
  exact ⟨{ p' with nodes := zero }, r, newValue_eq hp (by omega) .valueLong _ _ rfl, hnode, hr⟩

lemma Direct.pre (op : PreOp) (h : Direct H (procCastExpr H) e ts) :
    Direct H (procUnaryExpr H) (.pre op e) ts := by
  intro p k s' hready
  have hat : At H p ({ token := op.token } :: (e.tokens ++ ts)) s' := hready.before
  obtain ⟨hreplay, htook, hkept⟩ := hat.next
  have hfits := hready.fits
  have hsize : e.size ≤ (Expr.pre op e).size := by cases op <;> simp [Expr.size]
  have hready' : Ready H (p.next H) k e ts s' :=
    ⟨htook.at hreplay, fun t ht => by rw [hkept.vars]; exact hready.known t (mem_cons_of_mem _ ht),
      by rw [hkept.heap, ← withStrings_pre H op]; exact hready.room,
      by rw [hkept.nodes]; exact hready.packed, by omega⟩
  obtain ⟨p1, ⟨m, hm⟩, hparsed⟩ := h _ k s' hready'
  -- the operators with a node of their own and nothing else
  have hover : ∀ type : NodeType, type ≠ .unknown → (Expr.pre op e).size = e.size + 1 →
      (∀ i c, e.Prescribed H (p.next H).vars i c →
        (Expr.pre op e).Prescribed H (p.next H).vars { nodeType := type } (.node i c .nil)) →
      (∀ n, procUnaryExpr H (n + 1) p
        = (procCastExpr H n >>= fun cast => makeSysNode type cast none) (p.next H)) →
      ∃ p', Settles (procUnaryExpr H) p (some (k + (Expr.pre op e).size - 1)) p' ∧
        Parsed H p p' k (.pre op e) ts s' := by
    intro type htype hs hpre hrun
    obtain ⟨q, hnode, hq⟩ := hparsed.over (.pre op e) type (withStrings_pre H op e _) htype
      (by omega) hs hpre
    refine ⟨q, settles_of_succ m fun n hn => ?_, hq.skip hkept⟩
    rw [hrun, bind_of_ok (hm n hn)]
    exact hnode
  have hrun : ∀ n, procUnaryExpr H (n + 1) p = _ := fun n => by
    rw [procUnaryExpr, bind_of_ok hat.nextToken]
  cases op with
  | plus =>
    obtain ⟨info, child, hpre, hb⟩ := hparsed.built
    exact ⟨p1, settles_of_succ m fun n hn => (hrun n).trans (hm n hn),
      Parsed.skip ⟨hparsed.behind, (withStrings_pre H .plus e _).trans hparsed.heap, hparsed.grown,
        info, child, hpre, hb⟩ hkept⟩
  | minus =>
    obtain ⟨q, r, hlong, hnode, hr⟩ := hparsed.negate hfits
    refine ⟨r, settles_of_succ m fun n hn => (hrun n).trans ?_, hr.skip hkept⟩
    exact (bind_of_ok (hm n hn) _).trans ((bind_of_ok hlong _).trans hnode)
  | complement =>
    exact hover .bitwise (by simp) rfl (fun i c h => ⟨i, c, h, rfl, rfl⟩) fun n => hrun n
  | inc => exact hover .preinc (by simp) rfl (fun i c h => ⟨i, c, h, rfl, rfl⟩) fun n => hrun n
  | dec => exact hover .predec (by simp) rfl (fun i c h => ⟨i, c, h, rfl, rfl⟩) fun n => hrun n
  | value => exact hover .getvalue (by simp) rfl (fun i c h => ⟨i, c, h, rfl, rfl⟩) fun n => hrun n
  | address =>
    exact hover .getaddr (by simp) rfl (fun i c h => ⟨i, c, h, rfl, rfl⟩) fun n => hrun n

/-! ## Binary operators -/

lemma Parsed.join {l r : Expr} {p1 p2 : Parser σ η} {us : List Lexeme}
    (hl : Parsed H p p1 k l (t :: us) s') (hr : Parsed H (p1.next H) p2 (k + l.size) r ts s')
    (e' : Expr) (type : NodeType) (ht : t.token ≠ .valueString)
    (htokens : e'.tokens = l.tokens ++ t :: r.tokens) (htype : type ≠ .unknown)
    (hfits : k + (l.size + r.size) < finshNodeMax) (hsize : e'.size = l.size + r.size + 1)
    (hpre : ∀ i c j d, l.Prescribed H p.vars i c → r.Prescribed H p.vars j d →
      e'.Prescribed H p.vars { nodeType := type } (.node i c (.node j d .nil))) :
    ∃ q, makeSysNode type (some (k + l.size - 1)) (some (k + l.size + r.size - 1)) p2
        = .ok (some (k + e'.size - 1), q) ∧ Parsed H p q k e' ts s' := by
  have hlpos := l.size_pos
  obtain ⟨-, -, hkept⟩ := hl.behind.next
  obtain ⟨i, c, hi, hbl⟩ := hl.built
  obtain ⟨j, d, hj, hbr⟩ := hr.built
  rw [hkept.vars, hl.grown.vars] at hj
  have hgrown : Grown p p2 k (k + l.size + r.size) :=
    (hl.grown.trans (hkept.grown hl.grown.packed) (by omega)).trans hr.grown (by omega)
  -- the first tree is where it was
  have hbl' : Built p2.nodes k (k + l.size) i c := hbl.congr fun x _ hx => by
    rw [hr.grown.old x hx, hkept.nodes]
  have hheap : withStrings H p.heap e'.tokens = some p2.heap := by
    rw [htokens, withStrings_join H ht, hl.heap, ← hr.heap, hkept.heap]
    rfl
  exact parsed_sysNode hr.behind hheap hgrown (by omega) (by omega) htype (by omega)
    (hpre i c j d hi hj) (built_two hbl' hbr (by omega) (by omega) type)

lemma Ready.operands {op : Lexeme} (h : Ready H p k e ts s') (hop : op.token ≠ .valueString)
    (htokens : e.tokens = l.tokens ++ op :: r.tokens) (hsize : e.size = l.size + r.size + 1) :
    Ready H p k l (op :: (r.tokens ++ ts)) s' ∧
      ∀ p1, Parsed H p p1 k l (op :: (r.tokens ++ ts)) s' →
        Ready H (p1.next H) (k + l.size) r ts s' := by
  obtain ⟨hbefore, hknown, hroom, hpacked, hfits⟩ := h
  rw [htokens] at hbefore hknown hroom
  rw [append_assoc] at hbefore
  rw [withStrings_join H hop] at hroom
  refine ⟨⟨hbefore, fun t ht => hknown t (mem_append_left _ ht),
    Option.isSome_of_isSome_bind hroom, hpacked, by omega⟩, fun p1 hparsed => ?_⟩
  obtain ⟨hreplay, htook, hkept⟩ := hparsed.behind.next
  refine ⟨htook.at hreplay, fun t ht => ?_, ?_, by rw [hkept.nodes]; exact hparsed.grown.packed,
    by omega⟩
  · rw [hkept.vars, hparsed.grown.vars]
    exact hknown t (mem_append_right _ (mem_cons_of_mem _ ht))
  rw [hparsed.heap] at hroom
  rw [hkept.heap]
  exact hroom

lemma Then.bin {op : BinOp}
    (hl : Then H (procLevel H op.level) (levelLoop H op.level) l
      ({ token := op.token } :: (r.tokens ++ ts)))
    (hr : Direct H (procLevel H (op.level + 1)) r ts) :
    Then H (procLevel H op.level) (levelLoop H op.level) (.bin op l r) ts := by
  intro p k s' hready
  have hop : op.token ≠ .valueString := by cases op <;> simp [BinOp.token]
  obtain ⟨hleft, hright⟩ := hready.operands hop rfl rfl
  obtain ⟨p1, hparsed, hrest⟩ := hl p k s' hleft
  obtain ⟨p2, ⟨m, hm⟩, hparsed2⟩ := hr _ _ s' (hright p1 hparsed)
  obtain ⟨q, hnode, hq⟩ := hparsed.join hparsed2 (.bin op l r) op.node hop rfl
    (by cases op <;> simp [BinOp.node]) hready.fits rfl
    (fun i c j d hi hj => ⟨i, c, j, d, hi, hj, rfl, rfl⟩)
  refine ⟨q, hq, fun a x hloop => hrest a x (SettlesLoop.turn (k := m) (fun i j hi => ?_) hloop)⟩
  exact binaryLoop_turn hparsed.behind (levelOp_token op) (hm i hi) hnode j

/-! ## Expressions -/

/-- The routines of all levels up to its own handle `e`, up to a token that does not continue it. -/
structure Handled (H : Host σ η) (e : Expr) : Prop where
  direct : ∀ L, 1 ≤ L → L ≤ 7 → L ≤ e.level → ∀ t ts, Ends L t.token →
    Direct H (procLevel H L) e (t :: ts)
  loop : ∀ L, 1 ≤ L → L ≤ 6 → L ≤ e.level → ∀ t ts, Ends (L + 1) t.token →
    Then H (procLevel H L) (levelLoop H L) e (t :: ts)

lemma handled_of_cast
    (h : ∀ t ts, Ends 7 t.token → Direct H (procCastExpr H) e (t :: ts)) : Handled H e := by
  have hdirect : ∀ L, 1 ≤ L → L ≤ 7 → ∀ t ts, Ends L t.token →
      Direct H (procLevel H L) e (t :: ts) := fun L h1 h7 => Direct.lower le_rfl h h1 h7
  constructor
  · intro L h1 h7 _
    exact hdirect L h1 h7
  intro L h1 h6 _ t ts ht
  exact (hdirect (L + 1) (by omega) (by omega) t ts ht).then_level h1 h6

/-- **The levels.** By induction on the expression, one case for each kind of operator. -/
theorem handled (e : Expr) (he : e.Respects) (hl : 1 ≤ e.level) : Handled H e := by
  induction e with
  | atom a | post op e ih =>
    refine handled_of_cast fun t ts ht => ?_
    exact ((direct_tight _ he le_rfl (ht.mono (by omega)) ts).unary he le_rfl).cast he
  | pre op e ih =>
    refine handled_of_cast fun t ts ht => ?_
    have hoperand := ih he.2 (by have := he.1; omega)
    exact ((hoperand.direct 7 (by omega) le_rfl he.1 t ts ht).pre op).cast he
  | bin op l r ihl ihr =>
    obtain ⟨hll, hrl, hlr, hrr⟩ := he
    have hop := op.level_bounds
    -- the loop of the level of the operator takes the left operand first
    have hown : ∀ t ts, Ends (op.level + 1) t.token →
        Then H (procLevel H op.level) (levelLoop H op.level) (.bin op l r) (t :: ts) := by
      intro t ts ht
      refine Then.bin ?_ ((ihr hrr (by omega)).direct _ (by omega) (by omega) hrl t ts ht)
      exact (ihl hlr (by omega)).loop _ hop.1 hop.2 hll _ _ (ends_binOp op)
    have hdirect : ∀ L, 1 ≤ L → L ≤ op.level → ∀ t ts, Ends L t.token →
        Direct H (procLevel H L) (.bin op l r) (t :: ts) := fun L h1 hL =>
      Direct.lower (by omega) (fun t ts ht =>
        (hown t ts (ht.mono (by omega))).direct_level (ht.op _ le_rfl)) h1 hL
    constructor
    · intro L h1 _ hL
      exact hdirect L h1 hL
    intro L h1 h6 hL t ts ht
    rcases Nat.eq_or_lt_of_le (show L ≤ op.level from hL) with rfl | hlt
    · exact hown t ts ht
    exact (hdirect (L + 1) (by omega) hlt t ts ht).then_level h1 h6
  | assign l r ihl ihr => exact absurd hl (by simp [Expr.level])

lemma direct_assign (e : Expr) (he : e.Respects) (ht : Ends 1 t.token) (hne : t.token ≠ .assign) :
    Direct H (procAssignExpr H) e (t :: ts) := by
  -- without an assignment the token behind the expression is handed back
  have hplain : ∀ e : Expr, e.Respects → 1 ≤ e.level → Direct H (procAssignExpr H) e (t :: ts) := by
    intro e he hl p k s' hready
    obtain ⟨p', ⟨m, (hm : ∀ n, m ≤ n → procInclusiveOrExpr H n p = _)⟩, hparsed⟩ :=
      (handled e he hl).direct 1 le_rfl (by omega) hl t ts ht p k s' hready
    obtain ⟨-, htook, hkept⟩ := hparsed.behind.next
    refine ⟨p'.peek H, settles_of_succ m fun n hn => ?_,
      hparsed.kept (hkept.trans (kept_replay _)) htook.replay⟩
    rw [procAssignExpr, bind_of_ok (hm n hn), bind_of_ok hparsed.behind.nextToken, if_neg hne]
    rfl
  induction e with
  | atom a | post op e _ | pre op e _ => exact hplain _ he (by simp [Expr.level])
  | bin op l r _ _ => exact hplain _ he op.level_bounds.1
  | assign l r _ ihr =>
    obtain ⟨hll, hlr, hrr⟩ := he
    intro p k s' hready
    obtain ⟨hleft, hright⟩ := hready.operands (by simp) rfl rfl
    obtain ⟨p1, ⟨m, (hm : ∀ n, m ≤ n → procInclusiveOrExpr H n p = _)⟩, hparsed⟩ :=
      (handled l hlr (by omega)).direct 1 le_rfl (by omega) (by omega) _ _ ends_assign p k s' hleft
    obtain ⟨p2, ⟨m', hm'⟩, hparsed2⟩ := ihr hrr _ _ s' (hright p1 hparsed)
    obtain ⟨q, hnode, hq⟩ := hparsed.join hparsed2 (.assign l r) .assign (by simp) rfl
      (by simp) hready.fits rfl (fun i c j d hi hj => ⟨i, c, j, d, hi, hj, rfl, rfl⟩)
    refine ⟨q, settles_of_succ (max m m') fun n hn => ?_, hq⟩
    rw [procAssignExpr, bind_of_ok (hm n (by omega)), bind_of_ok hparsed.behind.nextToken]
    exact (bind_of_ok (hm' n (by omega)) _).trans hnode

lemma procExprStatement_eq (he : e.Respects)
    (hready : Ready H p k e ({ token := .semicolon } :: ts) s') :
    ∃ p', Settles (procExprStatement H) p (some (k + e.size - 1)) p' ∧
      p'.replay = false ∧ Parsed H p p' k e ts s' := by
  obtain ⟨t, us, htokens, hstarts, -⟩ := first_token e he
  obtain ⟨hat, hkept, hready'⟩ := hready.reread htokens
  obtain ⟨p1, ⟨m, hm⟩, hparsed⟩ := direct_assign e he ends_semicolon (by simp) _ k s' hready'
  obtain ⟨hreplay1, htook1, hkept1⟩ := hparsed.behind.next
  have hmatch : matchToken H .semicolon p1 = .ok ((), p1.next H) := by
    rw [matchToken, bind_of_ok hparsed.behind.nextToken]
    rfl
  refine ⟨p1.next H, ⟨m, fun n hn => ?_⟩, hreplay1,
    (hparsed.kept hkept1 (htook1.at hreplay1)).skip hkept⟩
  rw [procExprStatement, bind_of_ok hat.nextToken, if_neg hstarts.ne.2]
  calc (do replayToken; let expr ← procExpr H n; matchToken H .semicolon; pure expr :
          Parse σ η (Option Nat)) (p.next H)
      = (do let expr ← procAssignExpr H n; matchToken H .semicolon; pure expr :
          Parse σ η (Option Nat)) (p.peek H) := rfl
    _ = (do matchToken H .semicolon; pure (some (k + e.size - 1))) p1 := bind_of_ok (hm n hn) _
    _ = .ok (some (k + e.size - 1), p1.next H) := bind_of_ok hmatch _

end

/-! ## The law -/

/-- **Operator precedence.** In any state of the parser in which the tokens of a sentence and a
semicolon are next, its names are known, and the heap has room for its strings and the table for its
tree: the sentence has a reading that keeps to the precedence and the associativity of C, and for
every such reading the parser returns its tree, reports no error, and has read everything up to the
semicolon. -/
theorem precedence {σ η : Type} (H : Host σ η) (p : Parser σ η) (s' : σ) (s : Sentence) (k : Nat)
    (hat : At H p (s.tokens ++ [{ token := .semicolon }]) s')
    (hknown : ∀ t ∈ s.tokens, Known H p.vars t) (hroom : (withStrings H p.heap s.tokens).isSome)
    (hpacked : Packed p.nodes k) :
    (∃ e : Expr, e.Respects ∧ e.tokens = s.tokens) ∧
    ∀ e : Expr, e.Respects → e.tokens = s.tokens → k + e.size ≤ finshNodeMax →
      ∃ fuel p' info child, (∀ n, fuel ≤ n →
          procExprStatement H n p = .ok (some (k + e.size - 1), p')) ∧
        p'.errno = p.errno ∧ p'.replay = false ∧ p'.token = s' ∧
        e.Prescribed H p.vars info child ∧
        Spans p'.nodes k (k + e.size) (some (k + e.size - 1)) (.node info child .nil) := by
  refine ⟨⟨s.reading, s.reading_spec.2, s.reading_spec.1⟩, fun e he htokens hfits => ?_⟩
  obtain ⟨p', ⟨fuel, hfuel⟩, hreplay, hparsed⟩ := procExprStatement_eq he
    (⟨by rw [htokens]; exact hat, by rw [htokens]; exact hknown, by rw [htokens]; exact hroom,
      hpacked, hfits⟩ : Ready H p k e [{ token := .semicolon }] s')
  obtain ⟨info, child, hpre, hb⟩ := hparsed.built
  refine ⟨fuel, p', info, child, hfuel, hparsed.grown.errno, hreplay, ?_, hpre, hb.spans⟩
  rcases hparsed.behind with ⟨-, h⟩ | ⟨h, -⟩
  · exact h
  rw [hreplay] at h
  simp at h

/-- `"a=b+-2*c;"`. -/
def sumLine : List UInt8 := ['a', '=', 'b', '+', '-', '2', '*', 'c', ';'].map Char.toUInt8

/-- The parser in front of a line, with the variables `a`, `b` and `c`. -/
def abcParser (line : List UInt8) : Parser Lexer Unit :=
  { token := { line := line }
    heap := ()
    vars := ['a', 'b', 'c'].map fun c => { name := [c.toUInt8], type := .int } }

/-- The lexer of `finsh_token.c` without a heap. -/
def noHeap : Host Lexer Unit := Lexer.host (fun _ _ => none) {} []

def name (c : Char) : Lexeme := { token := .identifier, string := [c.toUInt8] }

/-- `a = b + -2 * c`, as a sentence. -/
def sumSentence : Sentence :=
  { targets := [⟨[], name 'a', [], by decide⟩]
    first := ⟨[], name 'b', [], by decide⟩
    rest := [(.add, ⟨[.minus], { token := .valueInt, value := 2 }, [], by decide⟩),
      (.mul, ⟨[], name 'c', [], by decide⟩)] }

theorem precedence_sum : ∃ fuel p' info child, (∀ n, fuel ≤ n →
        procExprStatement noHeap n (abcParser sumLine) = .ok (some 8, p')) ∧
      p'.errno = .ok ∧ p'.token.position = 9 ∧
      (Expr.assign (.atom (name 'a')) (.bin .add (.atom (name 'b')) (.bin .mul
        (.pre .minus (.atom { token := .valueInt, value := 2 })) (.atom (name 'c'))))).Prescribed
          noHeap (abcParser sumLine).vars info child ∧
      Spans p'.nodes 0 9 (some 8) (.node info child .nil) := by
  have hyields : Yields noHeap { line := sumLine }
      (sumSentence.tokens ++ [{ token := .semicolon }])
      { line := sumLine, position := 9, value := 2 } := by decide +kernel
  have hknown : ∀ t ∈ sumSentence.tokens, Known noHeap (abcParser sumLine).vars t := by
    unfold Known
    decide +kernel
  have hpacked : Packed (abcParser sumLine).nodes 0 := ⟨fun j hj => by omega, fun _ _ => rfl⟩
  obtain ⟨fuel, p', info, child, hrun, herr, -, htok, hpre, hspan⟩ :=
    (precedence noHeap (abcParser sumLine) _ sumSentence 0 (.inl ⟨rfl, hyields⟩) hknown
      (by decide +kernel) hpacked).2 sumSentence.reading sumSentence.reading_spec.2
      sumSentence.reading_spec.1 (by decide)
  exact ⟨fuel, p', info, child, hrun, herr, by rw [htok], hpre, hspan⟩

end NbIot.Finsh
