import Mathlib.Tactic

/-! # The lexer of finsh

`finsh_token.c`. The lexer reads the line through `token_next_char` and steps back through
`token_prev_char`; at the end of the line, or at a newline, it sets `eof` and moves the position
back to 0. A line is the list of its bytes without the final zero.

`replay` and `current_token` are in the state of the parser, which is all that reads them.
-/

namespace NbIot.Finsh

/-! ## Tokens, errors and the lexer -/

inductive TokenType where
  | leftParen | rightParen | comma | semicolon | mul | add | inc | sub | dec | div | mod | assign
  | and | or | xor | bitwise | shl | shr | comments
  | void | char | short | int | long | unsigned
  | valueChar | valueInt | valueLong | valueString | valueNull
  | identifier | bad | eof
  deriving DecidableEq, Repr

/-- The error numbers of `finsh.h`. -/
inductive ErrNo where
  | ok | invalidToken | expectType | unknownType | variableExist | expectOperator | memoryFull
  | unknownOp | unknownNode | expectChar | unexpectEnd | unknownToken | noFloat | unknownSymbol
  | nullNode
  deriving DecidableEq, Repr

def finshStringMax : Nat := 128

/-- The fields of `struct finsh_token` that the lexer works on. `value` is a union of which
`char_value` is the low byte; `string` is the array, with what is left of earlier tokens behind
its zero. `overrun` says that `token_proc_char` has stored something behind its buffer; what that
overwrites is not in the model. -/
structure Lexer where
  line : List UInt8
  position : Nat := 0
  eof : Bool := false
  value : BitVec 32 := 0
  string : List UInt8 := List.replicate finshStringMax 0
  overrun : Bool := false
  deriving DecidableEq

namespace Lexer

def cstring (l : List UInt8) : List UInt8 := l.takeWhile (· ≠ 0)

/-- The first bytes of `string` overwritten. -/
def writeString (s : Lexer) (l : List UInt8) : Lexer :=
  { s with string := l ++ s.string.drop l.length }

def isDigit (ch : UInt8) : Bool := '0'.toUInt8 ≤ ch && ch ≤ '9'.toUInt8

/-- `((ch | 0x20) - 'a') < 26u`, an unsigned comparison. -/
def isAlpha (ch : UInt8) : Bool :=
  'a'.toUInt8 ≤ ch ||| 0x20 && (ch ||| 0x20) - 'a'.toUInt8 < 26

def isXdigit (ch : UInt8) : Bool :=
  isDigit ch || ('a'.toUInt8 ≤ ch ||| 0x20 && (ch ||| 0x20) - 'a'.toUInt8 < 6)

def isSeparator (ch : UInt8) : Bool :=
  !(('a'.toUInt8 ≤ ch && ch ≤ 'z'.toUInt8) || ('A'.toUInt8 ≤ ch && ch ≤ 'Z'.toUInt8)
    || isDigit ch || ch == '_'.toUInt8)

/-- `(ch - '0') < 8u`. -/
def isOctal (ch : UInt8) : Bool := '0'.toUInt8 ≤ ch && ch < '8'.toUInt8

/-! ## Characters -/

def nextChar (s : Lexer) : UInt8 × Lexer :=
  if s.eof then (0, s)
  else
    match s.line[s.position]? with
    | none => (0, { s with eof := true, position := 0 })
    | some c =>
      if c = '\n'.toUInt8 then (0, { s with eof := true, position := 0 })
      else (c, { s with position := s.position + 1 })

def prevChar (s : Lexer) : Lexer :=
  if s.eof then s else { s with position := s.position - 1 }

/-- `while (p(ch)) { use ch; ch = token_next_char(self); }`, for at most `n` turns: the characters
used, the last one read, and the lexer then. -/
def whileChar (p : UInt8 → Bool) : Nat → UInt8 → Lexer → List UInt8 × UInt8 × Lexer
  | 0, ch, s => ([], ch, s)
  | n + 1, ch, s =>
    if p ch then
      let rest := whileChar p n s.nextChar.1 s.nextChar.2
      (ch :: rest.1, rest.2)
    else ([], ch, s)

def readWhile (p : UInt8 → Bool) (ch : UInt8) (s : Lexer) : List UInt8 × UInt8 × Lexer :=
  whileChar p (s.line.length + 2) ch s

def trimSpace (s : Lexer) : Lexer :=
  let blank := fun c : UInt8 => c == ' '.toUInt8 || c == '\t'.toUInt8 || c == '\r'.toUInt8
  (readWhile blank s.nextChar.1 s.nextChar.2).2.2.prevChar

/-- `token_get_string`. At the end of the line `string` stays as it is. A name that ends with the
line resets `eof`, and the position is then 0. -/
def getString (s : Lexer) : Lexer :=
  let (ch, s) := s.nextChar
  if s.eof then s
  else
    let s := s.writeString [0]
    if isDigit ch then s.prevChar
    else
      let (name, _, s) := readWhile (fun c => !isSeparator c) ch s
      ({ s with eof := false }.prevChar).writeString (name ++ [0])

/-! ## Names -/

def nameTable : List (List UInt8 × TokenType) :=
  [(['v', 'o', 'i', 'd'].map Char.toUInt8, .void), (['c', 'h', 'a', 'r'].map Char.toUInt8, .char),
    (['s', 'h', 'o', 'r', 't'].map Char.toUInt8, .short), (['i', 'n', 't'].map Char.toUInt8, .int),
    (['l', 'o', 'n', 'g'].map Char.toUInt8, .long),
    (['u', 'n', 's', 'i', 'g', 'n', 'e', 'd'].map Char.toUInt8, .unsigned),
    (['N', 'U', 'L', 'L'].map Char.toUInt8, .valueNull),
    (['n', 'u', 'l', 'l'].map Char.toUInt8, .valueNull)]

/-- `token_match_name`: the token of a name. -/
def matchName (name : List UInt8) : TokenType :=
  match nameTable.find? (fun e => e.1 = name) with
  | some e => e.2
  | none => .identifier

/-! ## Numbers -/

/-- One step of `token_spec_number`, on the low word of its result. The digits of a number need not
be digits of its base. -/
def specDigit (shift : Nat) (v : BitVec 32) (c : UInt8) : BitVec 32 :=
  let t : UInt8 := if 'a'.toUInt8 ≤ c ∧ c ≤ 'f'.toUInt8 then c - 'a'.toUInt8 + 10
    else if 'A'.toUInt8 ≤ c ∧ c ≤ 'F'.toUInt8 then c - 'A'.toUInt8 + 10
    else c - '0'.toUInt8
  v <<< shift ||| BitVec.ofNat 32 t.toNat

def specNumber (digits : List UInt8) (shift : Nat) : BitVec 32 :=
  digits.foldl (specDigit shift) 0

/-- The suffix of a number: `'l'` or `'L'` makes it a long. -/
def procSuffix (ch : UInt8) (s : Lexer) : TokenType × Lexer :=
  if ch = 'l'.toUInt8 ∨ ch = 'L'.toUInt8 then (.valueLong, s) else (.valueInt, s.prevChar)

def procNumber (s : Lexer) : TokenType × Lexer :=
  let (ch, s) := s.nextChar
  if ch = '0'.toUInt8 then
    let (ch, s) := s.nextChar
    if ch = 'x'.toUInt8 ∨ ch = 'X'.toUInt8 then
      let (ch, s) := s.nextChar
      let (digits, ch, s) := readWhile (fun c => isDigit c || isAlpha c) ch s
      procSuffix ch { s with value := specNumber digits 4 }
    else if ch = 'b'.toUInt8 ∨ ch = 'B'.toUInt8 then
      let (ch, s) := s.nextChar
      let (digits, ch, s) := readWhile (fun c => c == '0'.toUInt8 || c == '1'.toUInt8) ch s
      procSuffix ch { s with value := specNumber digits 1 }
    else if isOctal ch then
      let (digits, ch, s) := readWhile isOctal ch s
      procSuffix ch { s with value := specNumber digits 3 }
    else
      (.valueInt, { s.prevChar with value := 0 })
  else
    let (digits, ch, s) := readWhile isDigit ch s
    let value := digits.foldl (fun v c => v * 10 + BitVec.ofNat 32 (c.toNat - '0'.toNat)) 0
    procSuffix ch { s with value := value }

/-! ## Characters and strings in quotes -/

/-- `token_proc_char`. A numeric escape is read and then counts as 0: `atoi` is called at the end
of its digits. -/
def procChar (s : Lexer) : UInt8 × Option ErrNo × Lexer :=
  let (ch, s) := s.nextChar
  let (ch, s) := if ch = '\\'.toUInt8 then
      let (ch, s) := s.nextChar
      if ch = 'n'.toUInt8 then (10, s)
      else if ch = 't'.toUInt8 then (9, s)
      else if ch = 'v'.toUInt8 then (11, s)
      else if ch = 'b'.toUInt8 then (8, s)
      else if ch = 'r'.toUInt8 then (13, s)
      else if ch = '\\'.toUInt8 ∨ ch = '\''.toUInt8 then (ch, s)
      else
        -- every digit makes a store to `buf`, which has four bytes, and a zero follows
        let (digits, _, s) := readWhile isDigit ch s
        (0, { s.prevChar with overrun := s.overrun || 4 ≤ digits.length })
    else (ch, s)
  let (close, s) := s.nextChar
  if close = '\''.toUInt8 then (ch, none, s) else (ch, some .expectChar, s.prevChar)

def procEscape (s : Lexer) : UInt8 × Lexer :=
  let (ch, s) := s.nextChar
  if ch = 'n'.toUInt8 then (10, s)
  else if ch = 't'.toUInt8 then (9, s)
  else if ch = 'v'.toUInt8 then (11, s)
  else if ch = 'b'.toUInt8 then (8, s)
  else if ch = 'r'.toUInt8 then (13, s)
  else if ch = 'f'.toUInt8 then (12, s)
  else if ch = 'a'.toUInt8 then (7, s)
  else if ch = '"'.toUInt8 then (ch, s)
  else if ch = 'x'.toUInt8 ∨ ch = 'X'.toUInt8 then
    let (ch, s) := s.nextChar
    let (digits, _, s) := readWhile isXdigit ch s
    let digit := fun c : UInt8 =>
      if c < 'A'.toUInt8 then c - '0'.toUInt8 else (c ||| 0x20) - 'a'.toUInt8 + 10
    (digits.foldl (fun r c => r * 16 + digit c) 0, s.prevChar)
  else if isOctal ch then
    let (digits, _, s) := readWhile isOctal ch s
    (digits.foldl (fun r c => r * 8 + (c - '0'.toUInt8)) 0, s.prevChar)
  else (0, s)

/-- The loop of `token_proc_string`, with the room left in `string` and the bytes written so far. -/
def stringLoop : Nat → List UInt8 → Lexer → List UInt8 × Option ErrNo × Lexer
  | 0, l, s => (l, none, s)
  | n + 1, l, s =>
    let (ch, s) := s.nextChar
    if s.eof then (l, some .unexpectEnd, s)
    else if ch = '\\'.toUInt8 then
      let (ch, s) := s.procEscape
      stringLoop n (l ++ [ch]) s
    else if ch = '"'.toUInt8 then (l ++ [0], none, s)
    else stringLoop n (l ++ [ch]) s

def procString (s : Lexer) : Option ErrNo × Lexer :=
  let (l, err, s) := stringLoop finshStringMax [] s
  (err, s.writeString l)

/-! ## The next token -/

def procDouble (second : Char) (double single : TokenType) (s : Lexer) :
    TokenType × Option ErrNo × Lexer :=
  if s.nextChar.1 = second.toUInt8 then (double, none, s.nextChar.2)
  else (single, none, s.nextChar.2.prevChar)

/-- The branch of `token_run` for a token that is neither a name nor a keyword. `"//"` gives the
token `eof` and leaves the flag `eof` clear. -/
def procOperator (s : Lexer) : TokenType × Option ErrNo × Lexer :=
  let (ch, s) := s.nextChar
  if ch = '('.toUInt8 then (.leftParen, none, s)
  else if ch = ')'.toUInt8 then (.rightParen, none, s)
  else if ch = ','.toUInt8 then (.comma, none, s)
  else if ch = ';'.toUInt8 then (.semicolon, none, s)
  else if ch = '&'.toUInt8 then (.and, none, s)
  else if ch = '*'.toUInt8 then (.mul, none, s)
  else if ch = '+'.toUInt8 then s.procDouble '+' .inc .add
  else if ch = '-'.toUInt8 then s.procDouble '-' .dec .sub
  else if ch = '/'.toUInt8 then s.procDouble '/' .eof .div
  else if ch = '<'.toUInt8 then s.procDouble '<' .shl .bad
  else if ch = '>'.toUInt8 then s.procDouble '>' .shr .bad
  else if ch = '|'.toUInt8 then (.or, none, s)
  else if ch = '%'.toUInt8 then (.mod, none, s)
  else if ch = '~'.toUInt8 then (.bitwise, none, s)
  else if ch = '^'.toUInt8 then (.xor, none, s)
  else if ch = '='.toUInt8 then (.assign, none, s)
  else if ch = '\''.toUInt8 then
    let (c, err, s) := s.procChar
    (.valueChar, err, { s with value := s.value &&& 0xffffff00#32 ||| BitVec.ofNat 32 c.toNat })
  else if ch = '"'.toUInt8 then
    let (err, s) := s.procString
    (.valueString, err, s)
  else if isDigit ch then
    let (token, s) := s.prevChar.procNumber
    (token, none, s)
  else (.bad, some .unknownToken, s)

/-- `token_run`: the token, the error it reports if any, and the lexer behind it. -/
def tokenRun (s : Lexer) : TokenType × Option ErrNo × Lexer :=
  let s := s.trimSpace.getString
  if s.eof then (.eof, none, s)
  else if cstring s.string ≠ [] then (matchName (cstring s.string), none, s)
  else s.procOperator

lemma nextChar_cases (s : Lexer) : (s.nextChar = (0, s) ∧ s.eof = true) ∨
    (s.nextChar = (0, { s with eof := true, position := 0 }) ∧ s.eof = false) ∨
    ∃ c, s.line[s.position]? = some c ∧
      s.nextChar = (c, { s with position := s.position + 1 }) ∧ s.eof = false := by
  unfold nextChar
  by_cases he : s.eof = true
  · exact .inl ⟨if_pos he, he⟩
  rw [if_neg he]
  rw [Bool.not_eq_true] at he
  cases s.line[s.position]? with
  | none => exact .inr (.inl ⟨rfl, he⟩)
  | some c =>
    by_cases hn : c = '\n'.toUInt8
    · exact .inr (.inl ⟨if_pos hn, he⟩)
    exact .inr (.inr ⟨c, rfl, if_neg hn, he⟩)

lemma nextChar_line (s : Lexer) : s.nextChar.2.line = s.line := by
  rcases nextChar_cases s with ⟨h, -⟩ | ⟨h, -⟩ | ⟨c, -, h, -⟩ <;> rw [h]

end Lexer

end NbIot.Finsh
