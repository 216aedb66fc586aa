import NbIot.Basic.Fuel
import NbIot.Finsh.Node

/-! # The parser of finsh

`finsh_parser.c`: recursive descent with one token of lookahead. Every routine reads tokens with
`next_token`; a token that is not its own it hands back with `finsh_token_replay`, and the next
`next_token` returns it again.

The lexer and the heap for string literals are parameters of the parser, given by a `Host`:
`Lexer.tokenRun` is one such lexer. The routines are mutually recursive and need not end, so each
has fuel and spends one unit of it. A run stops early when there is no fuel left or when `RT_NULL`
is dereferenced.
-/

namespace NbIot.Finsh

open Fuel

/-! ## The parser and what it runs on -/

inductive Stop where
  | outOfFuel
  | nullPointer
  deriving DecidableEq

/-- What the parser runs on: a lexer with the state `σ`, a heap with the state `η`, the symbols.
`newString` allocates a string and is `none` when there is no room. `idTail` is what stands behind
the array `id` of `proc_primary_expr`: a name of 16 characters or more fills the array without a
final zero. -/
structure Host (σ η : Type) where
  tokenRun : σ → TokenType × Option ErrNo × σ
  value : σ → BitVec 32
  string : σ → List UInt8
  newString : η → List UInt8 → Option (BitVec 32 × η)
  symbols : Symbols := {}
  idTail : List UInt8 := []

/-- The lexer of `finsh_token.c`, with any heap. -/
def Lexer.host {η : Type} (newString : η → List UInt8 → Option (BitVec 32 × η)) (symbols : Symbols)
    (idTail : List UInt8) : Host Lexer η :=
  { tokenRun := Lexer.tokenRun
    value := Lexer.value
    string := Lexer.string
    newString := newString
    symbols := symbols
    idTail := idTail }

/-- `struct finsh_parser` and the global tables. `replay` and `currentToken` are fields of its
`token`; `currentToken` is read only after the first token. -/
structure Parser (σ η : Type) where
  token : σ
  heap : η
  replay : Bool := false
  currentToken : TokenType := .eof
  root : Option Nat := none
  nodes : NodeTable := fun _ => {}
  vars : List Var := List.replicate finshVariableMax {}
  errno : ErrNo := .ok

abbrev Parse (σ η α : Type) : Type := Prog (Parser σ η) Stop α

/-! ## Tokens and nodes -/

section

variable {σ η : Type} (H : Host σ η)

/-- `finsh_token_token`. -/
def Parser.next (p : Parser σ η) : Parser σ η :=
  if p.replay then { p with replay := false }
  else
    let (token, err, s) := H.tokenRun p.token
    { p with token := s, currentToken := token, errno := err.getD p.errno }

abbrev Parser.peek (p : Parser σ η) : Parser σ η := { p.next H with replay := true }

def nextToken : Parse σ η TokenType := fun p => .ok ((p.next H).currentToken, p.next H)

/-- `finsh_token_replay`. -/
def replayToken : Parse σ η Unit := fun p => .ok ((), { p with replay := true })

def errorSet (e : ErrNo) : Parse σ η Unit := fun p => .ok ((), { p with errno := e })

def checkToken (token type : TokenType) : Parse σ η Unit :=
  if token ≠ type then do errorSet .invalidToken; replayToken else pure ()

def matchToken (type : TokenType) : Parse σ η Unit := do
  let token ← nextToken H
  checkToken token type

def writeNode (i : Nat) (f : Node → Node) : Parse σ η Unit := fun p =>
  .ok ((), { p with nodes := Function.update p.nodes i (f (p.nodes i)) })

def nodeAllocate (type : NodeType) : Parse σ η (Option Nat) := fun p =>
  match allocateIndex p.nodes with
  | none => .ok (none, p)
  | some i =>
    .ok (some i, { p with
      nodes := Function.update p.nodes i { p.nodes i with nodeType := type } })

/-- `finsh_node_new_char`, `finsh_node_new_int`, `finsh_node_new_long` and `finsh_node_new_ptr`,
with what each writes into the node. -/
def newValue (type : NodeType) (fill : Node → Node) : Parse σ η (Option Nat) := do
  match ← nodeAllocate type with
  | none => errorSet .memoryFull; return none
  | some i => writeNode i fill; return some i

/-- `finsh_node_new_char`: the other bytes of the union stay as they are. -/
def nodeNewChar (c : BitVec 8) : Parse σ η (Option Nat) :=
  newValue .valueChar fun n => { n with value := n.value &&& 0xffffff00#32 ||| c.setWidth 32 }

def nodeNewInt (i : BitVec 32) : Parse σ η (Option Nat) :=
  newValue .valueInt fun n => { n with value := i }

def nodeNewLong (l : BitVec 32) : Parse σ η (Option Nat) :=
  newValue .valueLong fun n => { n with value := l }

def nodeNewPtr (p : BitVec 32) : Parse σ η (Option Nat) :=
  newValue .valueNull fun n => { n with value := p }

/-- `finsh_node_new_string`. The bytes are copied to what the heap returns, also if that is
`RT_NULL`. -/
def nodeNewString (s : List UInt8) : Parse σ η (Option Nat) := do
  match ← nodeAllocate .valueString with
  | none => errorSet .memoryFull; return none
  | some i => fun p =>
    match H.newString p.heap s with
    | none => .error .nullPointer
    | some (ptr, heap) => (do writeNode i fun n => { n with value := ptr }; return some i)
        { p with heap := heap }

def nodeNewId (name : List UInt8) : Parse σ η (Option Nat) := do
  let p ← get
  match resolve p.vars H.symbols name with
  | none => errorSet .unknownSymbol; return none
  | some (id, idtype) =>
    match ← nodeAllocate .id with
    | none => errorSet .memoryFull; return none
    | some i => writeNode i fun n => { n with id := id, idtype := idtype }; return some i

def makeSysNode (type : NodeType) (node1 node2 : Option Nat) : Parse σ η (Option Nat) := do
  let node ← nodeAllocate type
  match node1, node with
  | some a, some i =>
    writeNode i fun n => { n with child := some a }
    writeNode a fun n => { n with sibling := node2 }
  | _, _ => errorSet .nullNode
  return node

/-- `finsh_node_sibling(node) = sibling`. -/
def setSibling (node sibling : Option Nat) : Parse σ η Unit :=
  match node with
  | none => fun _ => .error .nullPointer
  | some i => writeNode i fun n => { n with sibling := sibling }

/-! ## Types and names -/

/-- The type of a type name, with and without `unsigned`. -/
def baseType (unsigned : Bool) : TokenType → Option FinshType
  | .void => if unsigned then none else some .void
  | .char => some (if unsigned then .uchar else .char)
  | .short => some (if unsigned then .ushort else .short)
  | .int => some (if unsigned then .uint else .int)
  | .long => some (if unsigned then .ulong else .long)
  | _ => none

def isBaseType (token : TokenType) : Bool := (baseType false token).isSome

/-- The pointer type of `proc_type`. -/
def pointerType : FinshType → FinshType
  | .void => .voidp
  | .char | .uchar => .charp
  | .short | .ushort => .shortp
  | .int | .uint => .intp
  | .long | .ulong => .longp
  | _ => .voidp

/-- The end of `proc_type`: a star makes a pointer type. -/
def procPointer (type : FinshType) : Parse σ η FinshType := do
  if (← nextToken H) = .mul then
    return pointerType type
  else
    replayToken
    return type

/-- The label `__return` of `proc_type`. -/
def procTypeFail (type : FinshType) : Parse σ η FinshType := do
  replayToken
  errorSet .unknownType
  return type

def procType : Parse σ η FinshType := do
  let token ← nextToken H
  match baseType false token with
  | some type => procPointer H type
  | none =>
    if token = .unsigned then
      let token ← nextToken H
      match baseType true token with
      | some type => procPointer H type
      | none =>
        -- `unsigned void` leaves the routine, any other token does not
        if isBaseType token then procTypeFail .unknown
        else
          replayToken
          errorSet .expectType
          procPointer H .unknown
    else procTypeFail .unknown

/-- The identifier in the array `id`: `strncpy` copies at most 16 characters and adds no zero behind
that many. -/
def copyId (string : List UInt8) : List UInt8 :=
  if string.length < finshNameMax then string else string.take finshNameMax ++ H.idTail

/-- `proc_identifier`. It copies the string of the token also if that is no identifier. -/
def procIdentifier : Parse σ η (List UInt8) := do
  matchToken H .identifier
  let p ← get
  return copyId H (Lexer.cstring (H.string p.token))

/-! ## Loops -/

/-- The routines for binary operators, which differ in their operators and in the routine for the
operands: `next_token; while (the token is an operator) …; finsh_token_replay`. -/
def binaryLoop (op : TokenType → Option NodeType) (operand : Parse σ η (Option Nat)) :
    Nat → Option Nat → Parse σ η (Option Nat)
  | 0, _ => fun _ => .error .outOfFuel
  | n + 1, node => do
    let token ← nextToken H
    match op token with
    | none => replayToken; return node
    | some type =>
      match ← operand with
      | none => errorSet .expectOperator; binaryLoop op operand n node
      | some y =>
        let node ← makeSysNode type node (some y)
        binaryLoop op operand n node

def orOp : TokenType → Option NodeType
  | .or => some .or
  | _ => none

def xorOp : TokenType → Option NodeType
  | .xor => some .xor
  | _ => none

def andOp : TokenType → Option NodeType
  | .and => some .and
  | _ => none

def shiftOp : TokenType → Option NodeType
  | .shl => some .shl
  | .shr => some .shr
  | _ => none

def additiveOp : TokenType → Option NodeType
  | .sub => some .sub
  | .add => some .add
  | _ => none

def multiplicativeOp : TokenType → Option NodeType
  | .mul => some .mul
  | .div => some .div
  | .mod => some .mod
  | _ => none

/-- `proc_param_list` behind its first expression. -/
def paramLoop (assign : Parse σ η (Option Nat)) : Nat → Nat → Parse σ η Unit
  | 0, _ => fun _ => .error .outOfFuel
  | n + 1, last => do
    let token ← nextToken H
    if token = .comma then
      let next ← assign
      setSibling (some last) next
      match next with
      | some next => paramLoop assign n next
      | none => errorSet .expectOperator; paramLoop assign n last
    else replayToken

def procArguments (paramList : Parse σ η (Option Nat)) : Parse σ η (Option Nat) := do
  if (← nextToken H) = .rightParen then
    return none
  else
    replayToken
    let params ← paramList
    matchToken H .rightParen
    return params

/-- The loop of `proc_postfix_expr`. -/
def postfixLoop (paramList : Parse σ η (Option Nat)) : Nat → Option Nat → Parse σ η (Option Nat)
  | 0, _ => fun _ => .error .outOfFuel
  | n + 1, node => do
    match ← nextToken H with
    | .inc =>
      let node ← makeSysNode .inc node none
      postfixLoop paramList n node
    | .dec =>
      let node ← makeSysNode .dec node none
      postfixLoop paramList n node
    | .leftParen =>
      let params ← procArguments H paramList
      let node ← makeSysNode .func node params
      postfixLoop paramList n node
    | _ =>
      replayToken
      return node

/-! ## Expressions -/

mutual

def procAssignExpr : Nat → Parse σ η (Option Nat)
  | 0 => fun _ => .error .outOfFuel
  | n + 1 => do
    let or ← procInclusiveOrExpr n
    if (← nextToken H) = .assign then
      let assign ← procAssignExpr n
      makeSysNode .assign or assign
    else
      replayToken
      return or

def procInclusiveOrExpr : Nat → Parse σ η (Option Nat)
  | 0 => fun _ => .error .outOfFuel
  | n + 1 => do binaryLoop H orOp (procExclusiveOrExpr n) n (← procExclusiveOrExpr n)

def procExclusiveOrExpr : Nat → Parse σ η (Option Nat)
  | 0 => fun _ => .error .outOfFuel
  | n + 1 => do binaryLoop H xorOp (procAndExpr n) n (← procAndExpr n)

def procAndExpr : Nat → Parse σ η (Option Nat)
  | 0 => fun _ => .error .outOfFuel
  | n + 1 => do binaryLoop H andOp (procShiftExpr n) n (← procShiftExpr n)

def procShiftExpr : Nat → Parse σ η (Option Nat)
  | 0 => fun _ => .error .outOfFuel
  | n + 1 => do binaryLoop H shiftOp (procAdditiveExpr n) n (← procAdditiveExpr n)

def procAdditiveExpr : Nat → Parse σ η (Option Nat)
  | 0 => fun _ => .error .outOfFuel
  | n + 1 => do binaryLoop H additiveOp (procMultiplicativeExpr n) n (← procMultiplicativeExpr n)

def procMultiplicativeExpr : Nat → Parse σ η (Option Nat)
  | 0 => fun _ => .error .outOfFuel
  | n + 1 => do binaryLoop H multiplicativeOp (procCastExpr n) n (← procCastExpr n)

/-- `proc_cast_expr`. An opening parenthesis is taken for a cast; if no expression follows, the last
token is handed back and parsing goes on behind the parenthesis. -/
def procCastExpr : Nat → Parse σ η (Option Nat)
  | 0 => fun _ => .error .outOfFuel
  | n + 1 => do
    if (← nextToken H) = .leftParen then
      let type ← procType H
      matchToken H .rightParen
      match ← procCastExpr n with
      | some cast =>
        writeNode cast fun n => { n with dataType := type.toNat }
        return some cast
      | none =>
        replayToken
        procUnaryExpr n
    else
      replayToken
      procUnaryExpr n

def procUnaryExpr : Nat → Parse σ η (Option Nat)
  | 0 => fun _ => .error .outOfFuel
  | n + 1 => do
    match ← nextToken H with
    | .add => procCastExpr n
    | .inc =>
      let cast ← procCastExpr n
      makeSysNode .preinc cast none
    | .sub =>
      let cast ← procCastExpr n
      let zero ← nodeNewLong 0
      makeSysNode .sub zero cast
    | .dec =>
      let cast ← procCastExpr n
      makeSysNode .predec cast none
    | .bitwise =>
      let cast ← procCastExpr n
      makeSysNode .bitwise cast none
    | .mul =>
      let cast ← procCastExpr n
      makeSysNode .getvalue cast none
    | .and =>
      let cast ← procCastExpr n
      makeSysNode .getaddr cast none
    | _ =>
      replayToken
      procPostfixExpr n

def procPostfixExpr : Nat → Parse σ η (Option Nat)
  | 0 => fun _ => .error .outOfFuel
  | n + 1 => do postfixLoop H (procParamList n) n (← procPrimaryExpr n)

def procPrimaryExpr : Nat → Parse σ η (Option Nat)
  | 0 => fun _ => .error .outOfFuel
  | n + 1 => do
    let token ← nextToken H
    let p ← get
    match token with
    | .identifier =>
      replayToken
      nodeNewId H (← procIdentifier H)
    | .leftParen =>
      let expr ← procAssignExpr n
      matchToken H .rightParen
      return expr
    | .valueInt => nodeNewInt (H.value p.token)
    | .valueLong => nodeNewLong (H.value p.token)
    | .valueChar => nodeNewChar ((H.value p.token).setWidth 8)
    | .valueString => nodeNewString H (Lexer.cstring (H.string p.token))
    | .valueNull => nodeNewPtr 0
    | _ =>
      errorSet .invalidToken
      return none

def procParamList : Nat → Parse σ η (Option Nat)
  | 0 => fun _ => .error .outOfFuel
  | n + 1 => do
    match ← procAssignExpr n with
    | none => return none
    | some node =>
      paramLoop H (procAssignExpr n) n node
      return some node

end

/-! ## Statements -/

def procExpr (n : Nat) : Parse σ η (Option Nat) := procAssignExpr H n

def procExprStatement (n : Nat) : Parse σ η (Option Nat) := do
  if (← nextToken H) = .semicolon then
    return none
  else
    replayToken
    let expr ← procExpr H n
    matchToken H .semicolon
    return expr

def declareId (type : FinshType) : Parse σ η (List UInt8) := do
  let id ← procIdentifier H
  let p ← get
  match finshVarInsert p.vars id type with
  | none => errorSet .variableExist
  | some vars => set { p with vars := vars }
  return id

/-- The initialiser of a declared identifier: the assignment becomes the next sibling of `last`, or
the first node. -/
def initialise (n : Nat) (id : List UInt8) (node last : Option Nat) :
    Parse σ η (TokenType × Option Nat × Option Nat) := do
  match ← procAssignExpr H n with
  | none => return (.assign, node, last)
  | some assign =>
    let idnode ← nodeNewId H id
    let new ← makeSysNode .assign idnode (some assign)
    if node.isSome then setSibling last new
    let token ← nextToken H
    return (token, if node.isSome then node else new, new)

/-- `while (token == finsh_token_type_comma)` of `proc_variable_decl`, with the last token, the
first and the last node. -/
def declLoop (type : FinshType) : Nat → TokenType → Option Nat → Option Nat →
    Parse σ η (TokenType × Option Nat)
  | 0, _, _, _ => fun _ => .error .outOfFuel
  | n + 1, token, node, last => do
    if token = .comma then
      let id ← declareId H type
      let token ← nextToken H
      if token = .assign then
        let (token, node, last) ← initialise H n id node last
        declLoop type n token node last
      else declLoop type n token node last
    else return (token, node)

/-- `proc_variable_decl`. The first turn of its comma case is a turn of the loop. -/
def procVariableDecl (n : Nat) : Parse σ η (Option Nat) := do
  let type ← procType H
  let id ← declareId H type
  match ← nextToken H with
  | .comma =>
    let (token, node) ← declLoop H type n .comma none none
    checkToken token .semicolon
    return node
  | .assign =>
    let (token, node, last) ← initialise H n id none none
    let (token, node) ← declLoop H type n token node last
    checkToken token .semicolon
    return node
  | .semicolon => return none
  | _ =>
    errorSet .expectType
    return none

/-- One statement of `finsh_parser_run`, appended behind `node`: the last node then, and whether the
statement had no tree to append. -/
def appendStatement (statement : Parse σ η (Option Nat)) (node : Option Nat) :
    Parse σ η (Option Nat × Bool) := do
  let p ← get
  let next ← statement
  if p.root.isSome then
    setSibling node next
    return (if next.isSome then next else node, next.isNone)
  else
    modify fun p => { p with root := next }
    return (next, false)

/-- The loop of `finsh_parser_run`. After an empty statement that starts with neither a name nor a
type, one more token is read. -/
def runLoop : Nat → TokenType → Option Nat → Parse σ η Unit
  | 0, _, _ => fun _ => .error .outOfFuel
  | n + 1, token, node => do
    if token = .eof ∨ token = .bad then
      return
    else
      replayToken
      let decl := isBaseType token || token == .unsigned
      let (node, empty) ←
        appendStatement (if decl then procVariableDecl H n else procExprStatement H n) node
      if empty ∧ token ≠ .identifier ∧ !decl then
        let _ ← nextToken H
      if (← get).root.isNone then
        return
      else
        let token ← nextToken H
        runLoop n token node

/-- `finsh_parser_run`, with the lexer at the beginning of the line. -/
def finshParserRun (n : Nat) : Parse σ η Unit := do runLoop H n (← nextToken H) none

/-! ## The levels of the operators -/

def procLevel : Nat → Nat → Parse σ η (Option Nat)
  | 1 => procInclusiveOrExpr H
  | 2 => procExclusiveOrExpr H
  | 3 => procAndExpr H
  | 4 => procShiftExpr H
  | 5 => procAdditiveExpr H
  | 6 => procMultiplicativeExpr H
  | _ => procCastExpr H

def levelOp : Nat → TokenType → Option NodeType
  | 1 => orOp
  | 2 => xorOp
  | 3 => andOp
  | 4 => shiftOp
  | 5 => additiveOp
  | 6 => multiplicativeOp
  | _ => fun _ => none

/-- The loop of a level, with the fuel `i` for its operands and the fuel `j` for itself. -/
def levelLoop (L i j : Nat) (node : Option Nat) : Parse σ η (Option Nat) :=
  binaryLoop H (levelOp L) (procLevel H (L + 1) i) j node

def postLoop (i j : Nat) (node : Option Nat) : Parse σ η (Option Nat) :=
  postfixLoop H (procParamList H i) j node

lemma procLevel_succ {L : Nat} (h1 : 1 ≤ L) (h6 : L ≤ 6) (n : Nat) :
    procLevel H L (n + 1) = procLevel H (L + 1) n >>= levelLoop H L n n := by
  interval_cases L <;> rfl

lemma procPostfixExpr_succ (n : Nat) :
    procPostfixExpr H (n + 1) = procPrimaryExpr H n >>= postLoop H n n := rfl

end

end NbIot.Finsh
