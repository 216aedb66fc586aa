import NbIot.Finsh.Correct
import NbIot.Finsh.Precedence

/-! # From the text of a line to its value

The parser, the compiler and the virtual machine one after the other, as `finsh_run_line` calls
them, on a line of one statement. What ties them together is that the parser leaves in the table of
nodes the tree for which the compiler is correct.
-/

namespace NbIot.Finsh

open Fuel List

/-! ## What a statement means -/

/-- What an expression means on the user variables: `lookup` finds the variable of a name, and an
operator is the one with the same type of node. A system variable, a call, a character, a string and
an address have no meaning here. -/
inductive Means (lookup : List UInt8 → Option Nat) : Expr → IntExpr → Prop where
  | var {s v i} (h : lookup s = some i) : Means lookup (.atom ⟨.identifier, v, s⟩) (.var i)
  | int (v s) : Means lookup (.atom ⟨.valueInt, v, s⟩) (.int v)
  | long (v s) : Means lookup (.atom ⟨.valueLong, v, s⟩) (.long v)
  | post {op st e i} (ht : st.postType = op.node) (h : Means lookup e (.var i)) :
    Means lookup (.post op e) (.post st i)
  | plus {e x} (h : Means lookup e x) : Means lookup (.pre .plus e) x
  | minus {e x} (h : Means lookup e x) : Means lookup (.pre .minus e) (.negate x)
  | complement {e x} (h : Means lookup e x) : Means lookup (.pre .complement e) (.complement x)
  | inc {e i} (h : Means lookup e (.var i)) : Means lookup (.pre .inc e) (.pre .inc i)
  | dec {e i} (h : Means lookup e (.var i)) : Means lookup (.pre .dec e) (.pre .dec i)
  | bin {op a l r x y} (ht : a.nodeType = op.node) (hl : Means lookup l x) (hr : Means lookup r y) :
    Means lookup (.bin op l r) (.bin a x y)
  | assign {l r i y} (hl : Means lookup l (.var i)) (hr : Means lookup r y) :
    Means lookup (.assign l r) (.assign i y)

section

variable {σ η : Type} {H : Host σ η} {p : Parser σ η} {s' : σ} {k : Nat} {e : Expr} {x : IntExpr}
  {info : Info} {child : Tree}

lemma tree_eq_of_means {vars : List Var}
    (hm : Means (fun s => finshVarLookup vars (copyId H s)) e x)
    (hp : e.Prescribed H vars info child) (s : Tree) : x.tree 0 0 s = .node info child s := by
  induction hm generalizing info child s with
  | var h =>
    obtain ⟨⟨id, idtype, hres, rfl⟩, rfl⟩ := hp
    simp only [resolve, h] at hres
    obtain ⟨rfl, rfl⟩ := Prod.mk.inj (Option.some.inj hres)
    rfl
  | int | long =>
    obtain ⟨rfl, rfl⟩ := hp
    rfl
  | post ht _ ih =>
    obtain ⟨i, c, hi, rfl, rfl⟩ := hp
    rw [← ih hi, ← ht]
    rfl
  | plus _ ih => exact ih hp s
  | minus _ ih | complement _ ih | inc _ ih | dec _ ih =>
    obtain ⟨i, c, hi, rfl, rfl⟩ := hp
    rw [← ih hi]
    rfl
  | bin ht _ _ ihl ihr =>
    obtain ⟨i, c, j, d, hi, hj, rfl, rfl⟩ := hp
    rw [← ihr hj, ← ihl hi, ← ht]
    rfl
  | assign _ _ ihl ihr =>
    obtain ⟨i, c, j, d, hi, hj, rfl, rfl⟩ := hp
    rw [← ihr hj, ← ihl hi]
    rfl

lemma Means.known {vars : List Var} (hm : Means (fun s => finshVarLookup vars (copyId H s)) e x) :
    ∀ t ∈ e.tokens, Known H vars t := by
  induction hm with
  | var h => simp [Expr.tokens, Known, resolve, h]
  | int | long => simp [Expr.tokens, Known]
  | plus _ ih | minus _ ih | complement _ ih | inc _ ih | dec _ ih =>
    simpa [Expr.tokens, Known, PreOp.token] using ih
  | @post op => cases op <;> simp_all [Expr.tokens, Known, PostOp.token, or_imp]
  | @bin op => cases op <;> simp_all [Expr.tokens, Known, BinOp.token, or_imp]
  | assign _ _ ihl ihr => simp_all [Expr.tokens, Known, or_imp]

lemma Means.noStrings {look : List UInt8 → Option Nat} (hm : Means look e x) (heap : η) :
    withStrings H heap e.tokens = some heap := by
  induction hm with
  | var | int | long => rfl
  | plus _ ih | minus _ ih | complement _ ih | inc _ ih | dec _ ih =>
    exact (withStrings_pre H _ _ _).trans ih
  | post _ _ ih => exact (withStrings_post H _ _ _).trans ih
  | @bin op _ _ _ _ _ _ _ _ ihl ihr =>
    rw [Expr.tokens, withStrings_join H (by cases op <;> simp [BinOp.token]), ihl]
    exact ihr
  | assign _ _ ihl ihr =>
    rw [Expr.tokens, withStrings_join H (by simp), ihl]
    exact ihr

/-! ## The parser on one statement -/

lemma Starts.statement {t : Lexeme} (h : Starts t) : ¬ (t.token = .eof ∨ t.token = .bad) ∧
    (isBaseType t.token || t.token == .unsigned) = false := by
  rcases h with h | ⟨op, h⟩
  · rw [Lexeme.IsOperand] at h
    cases htok : t.token <;> rw [htok] at h <;> first | decide | exact absurd h (by decide)
  rw [h]
  cases op <;> decide

lemma finshParserRun_eq (he : e.Respects) (hroot : p.root = none)
    (hready : Ready H p k e [{ token := .semicolon }, { token := .eof }] s') :
    ∃ p', Settles (finshParserRun H) p () p' ∧ p'.errno = p.errno ∧
      ∃ info child, e.Prescribed H p.vars info child ∧
        Spans p'.nodes k (k + e.size) p'.root (.node info child .nil) := by
  obtain ⟨t, us, htokens, hstarts, -⟩ := first_token e he
  obtain ⟨hend, hdecl⟩ := hstarts.statement
  obtain ⟨hat, hkept, hready'⟩ := hready.reread htokens
  obtain ⟨q, ⟨l, hl⟩, -, hparsed⟩ := procExprStatement_eq he hready'
  obtain ⟨-, htook, hkept'⟩ := hparsed.behind.next
  obtain ⟨info, child, hpre, hbuilt⟩ := hparsed.built
  set i := k + e.size - 1
  refine ⟨{ q.next H with root := some i }, ⟨l + 2, fun n hn => ?_⟩, ?_, info, child, ?_, ?_⟩
  · obtain ⟨n, rfl⟩ : ∃ j, n = j + 2 := ⟨n - 2, by omega⟩
    have hreplay : replayToken (p.next H) = .ok ((), p.peek H) := rfl
    have hfirst : ¬ (p.peek H).root.isSome := by
      rw [hkept.root, hroot]
      simp
    have happend : appendStatement (procExprStatement H (n + 1)) none (p.peek H) =
        .ok ((some i, false), { q with root := some i }) := by
      rw [appendStatement, bind_of_ok (get_apply _), bind_of_ok (hl (n + 1) (by omega)),
        if_neg hfirst]
      rfl
    have hnext : Parser.next H { q with root := some i } = { q.next H with root := some i } := by
      unfold Parser.next
      split <;> rfl
    rw [finshParserRun, bind_of_ok hat.nextToken, runLoop, if_neg hend, bind_of_ok hreplay, hdecl]
    dsimp only
    rw [if_neg (by simp), bind_of_ok happend]
    show runLoop H (n + 1) (Parser.next H { q with root := some i }).currentToken (some i) _ = _
    rw [hnext, runLoop, if_pos (.inl htook.current)]
    rfl
  · exact (hkept'.errno.trans hparsed.grown.errno).trans hkept.errno
  · rw [← hkept.vars]
    exact hpre
  show Spans (q.next H).nodes _ _ _ _
  rw [hkept'.nodes]
  exact hbuilt.spans

end

/-! ## From the text to the value -/

/-- **From the text to the value.** If the lexer reads one statement from a line, there is room for
its tree, and it means the integer expression `x` with the value `v`: the parser stops without an
error, the compiler emits code for the tree that the parser has built, and, if the code fits, the
virtual machine runs it to the end and leaves `v`, with the variables as `x` leaves them and no
other memory modified. -/
theorem line_evaluated {σ η : Type} (H : Host σ η) (p : Parser σ η) (s' : σ) (e : Expr)
    (x : IntExpr) (G : Globals) (functions : Functions) (vm : Vm) (v : Int) (ρ : Nat → Int)
    (hroot : p.root = none) (hpacked : Packed p.nodes 0)
    (hat : At H p (e.tokens ++ [{ token := .semicolon }, { token := .eof }]) s') (he : e.Respects)
    (hfits : e.size ≤ finshNodeMax) (hx : Means (fun s => finshVarLookup p.vars (copyId H s)) e x)
    (hG : G.InSpace) (hdecl : x.Declared G) (heval : x.eval (G.store vm.mem).toInt = some (v, ρ)) :
    ∃ p' tree code, Settles (finshParserRun H) p () p' ∧ p'.errno = p.errno ∧
      Spans p'.nodes 0 e.size p'.root tree ∧
      finshCompilerRun G tree = some (code, none) ∧ (code.length ≤ finshTextMax →
        ∃ vm', finshVmRun functions (segment code) vm = some vm' ∧ vm'.sp = 1 ∧
          (vm'.stack 0).toInt = v ∧ (∀ i < finshVariableMax, (G.store vm'.mem i).toInt = ρ i) ∧
          Untouched G vm.mem vm'.mem) := by
  obtain ⟨p', hrun, herrno, info, child, hpre, hspans⟩ :=
    finshParserRun_eq he hroot (⟨hat, hx.known, by simp [hx.noStrings], hpacked, by omega⟩ :
      Ready H p 0 e _ s')
  rw [← tree_eq_of_means hx hpre, zero_add] at hspans
  have hxs : ∀ y ∈ [x], y.Declared G := by simpa using hdecl
  refine ⟨p', _, _, hrun, herrno, hspans, finshCompilerRun_eq hxs, fun hfit => ?_⟩
  rw [eval_toInt] at heval
  obtain ⟨⟨w, σ'⟩, hword, hread⟩ := Option.map_eq_some_iff.mp heval
  cases hread
  have htext := length_segment hfit
  have hplaced : Placed (segment (lineCode G [x])) 0 (segment (lineCode G [x])) := prefix_refl _
  rw [segment, placed_append] at hplaced
  obtain ⟨m, hcode, hholds, huntouched⟩ :=
    block_lineCode htext hG hxs hword (fun _ _ => rfl) hplaced.1
  obtain ⟨vm', hvm, his⟩ :=
    ((hcode.trans (Block.noops htext _ hplaced.2)).ends (by omega)).finshVmRun_eq
  refine ⟨vm', hvm, his.sp, congrArg BitVec.toInt his.live.1, fun i hi => ?_, ?_⟩
  · rw [his.mem]
    exact congrArg BitVec.toInt (hholds i hi)
  rw [his.mem]
  exact huntouched

/-- A machine with 5 in the second of the variables at 0 and 3 in the third. -/
def fiveAndThree : Vm := ⟨fun _ => 0, 0, 0, fun x => if x = 44 then 5 else if x = 68 then 3 else 0⟩

/-- `a=b+-2*c;` is -1. -/
theorem line_evaluated_sum : ∃ p' tree code,
    Settles (finshParserRun noHeap) (abcParser sumLine) () p' ∧ Spans p'.nodes 0 9 p'.root tree ∧
    finshCompilerRun ⟨0, (abcParser sumLine).vars⟩ tree = some (code, none) ∧
    (code.length ≤ finshTextMax → ∃ vm',
      finshVmRun (fun _ _ _ => none) (segment code) fiveAndThree = some vm' ∧ vm'.sp = 1 ∧
      (vm'.stack 0).toInt = -1 ∧
      (Globals.store ⟨0, (abcParser sumLine).vars⟩ vm'.mem 0).toInt = -1) := by
  have hyields : Yields noHeap { line := sumLine }
      (sumSentence.reading.tokens ++ [{ token := .semicolon }, { token := .eof }])
      { line := sumLine, eof := true, value := 2 } := by decide +kernel
  obtain ⟨p', tree, code, hrun, -, hspans, hcode, hvalue⟩ := line_evaluated noHeap
    (abcParser sumLine) _ sumSentence.reading
    (.assign 0 (.bin .add (.var 1) (.bin .mul (.negate (.int 2)) (.var 2))))
    ⟨0, (abcParser sumLine).vars⟩ (fun _ _ _ => none) fiveAndThree _ _ rfl
    ⟨fun j hj => by omega, fun _ _ => rfl⟩ (.inl ⟨rfl, hyields⟩) sumSentence.reading_spec.2
    (by decide) (.assign (.var (by decide +kernel)) (.bin rfl (.var (by decide +kernel))
      (.bin rfl (.minus (.int 2 [])) (.var (by decide +kernel)))))
    (by unfold Globals.InSpace wordSize; decide) (by decide) rfl
  refine ⟨p', tree, code, hrun, hspans, hcode, fun hfit => ?_⟩
  obtain ⟨vm', hvm, hsp, htop, hvars, -⟩ := hvalue hfit
  exact ⟨vm', hvm, hsp, htop.trans (by decide +kernel),
    (hvars 0 (by decide)).trans (by decide +kernel)⟩

end NbIot.Finsh
