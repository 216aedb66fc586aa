import NbIot.Basic.Run
import NbIot.Kservice.Strings

/-! # The line editor of the shell

The loop of `finsh_thread_entry` of `shell.c`.

* One step is one call of `rt_device_read`, with the byte it returns, if it returns one.
* `msh_is_used` may change with every command; each read comes with the value it has then.
* `complete` is what `shell_auto_complete` makes of the line.
* `memcpy` and `memset` on the two arrays are `blit`. `none` is a `strlen` that finds no zero in the
  line. What is printed is left out.
-/

namespace NbIot.Shell

open CString Kservice Function

/-! ## The state of the shell -/

def finshCmdSize : Nat := 80

def finshHistoryLines : Nat := 5

inductive InputStat where
  | normal
  | specKey
  | funcKey
  deriving DecidableEq

/-- The fields of `struct finsh_shell` that the editor uses. -/
structure FinshShell where
  stat : InputStat
  currentHistory : Nat
  historyCount : Nat
  cmdHistory : Nat → Nat → UInt8
  line : Nat → UInt8
  linePosition : Nat
  lineCurpos : Nat

/-- `memset(shell, 0, sizeof(struct finsh_shell))`. -/
def FinshShell.zeroed : FinshShell where
  stat := .normal
  currentHistory := 0
  historyCount := 0
  cmdHistory := fun _ _ => 0
  line := fun _ => 0
  linePosition := 0
  lineCurpos := 0

/-- `--` on an `rt_uint8_t`. -/
def dec8 (n : Nat) : Nat := (n + 255) % 256

/-- `++` on an `rt_uint8_t`. -/
def inc8 (n : Nat) : Nat := (n + 1) % 256

def esc : UInt8 := 0x1b
def cr : UInt8 := 0x0d
def lf : UInt8 := 0x0a
def tab : UInt8 := 0x09
def semicolon : UInt8 := 0x3b

/-! ## The history -/

/-- `memcpy(&cmd_history[dst][0], &cmd_history[src][0], FINSH_CMD_SIZE)`. -/
def copyRow (rows : Nat → Nat → UInt8) (dst src : Nat) : Nat → Nat → UInt8 :=
  update rows dst (blit (rows dst) 0 finshCmdSize (rows src))

/-- The loop that moves the history, with `n` rows to go from `index` on. -/
def moveHistory (rows : Nat → Nat → UInt8) (index : Nat) : Nat → Nat → Nat → UInt8
  | 0 => rows
  | n + 1 => moveHistory (copyRow rows index (index + 1)) (index + 1) n

def storeRow (rows : Nat → Nat → UInt8) (index : Nat) (line : Nat → UInt8) (length : Nat) :
    Nat → Nat → UInt8 :=
  update rows index
    (blit (blit (rows index) 0 finshCmdSize fun _ => 0) 0 length line)

def shellPushHistory (s : FinshShell) : FinshShell :=
  let s := if s.linePosition ≠ 0 then
      if finshHistoryLines ≤ s.historyCount then
        { s with
          cmdHistory := storeRow (moveHistory s.cmdHistory 0 (finshHistoryLines - 1))
            (finshHistoryLines - 1) s.line s.linePosition
          historyCount := finshHistoryLines }
      else
        { s with
          cmdHistory := storeRow s.cmdHistory s.historyCount s.line s.linePosition
          historyCount := s.historyCount + 1 }
    else s
  { s with currentHistory := s.historyCount }

/-- The line becomes the entry `index` of the history, and the cursor is behind it. -/
def copyHistory (s : FinshShell) (index : Nat) : Option FinshShell :=
  let line := blit s.line 0 finshCmdSize (s.cmdHistory index)
  (cstr finshCmdSize line).map fun text =>
    { s with
      currentHistory := index
      line := line
      linePosition := text.length
      lineCurpos := text.length }

def upKey (s : FinshShell) : Option FinshShell :=
  if 0 < s.currentHistory then copyHistory s (s.currentHistory - 1)
  else some { s with currentHistory := 0 }

def downKey (s : FinshShell) : Option FinshShell :=
  if (s.currentHistory : Int) < s.historyCount - 1 then copyHistory s (s.currentHistory + 1)
  else if s.historyCount ≠ 0 then copyHistory s (s.historyCount - 1)
  else some s

/-! ## The keys -/

def leftKey (s : FinshShell) : FinshShell :=
  if s.lineCurpos ≠ 0 then { s with lineCurpos := s.lineCurpos - 1 } else s

def rightKey (s : FinshShell) : FinshShell :=
  if s.lineCurpos < s.linePosition then { s with lineCurpos := s.lineCurpos + 1 } else s

def backspaceKey (s : FinshShell) : FinshShell :=
  if s.lineCurpos = 0 then s
  else
    let position := dec8 s.linePosition
    let curpos := s.lineCurpos - 1
    { s with
      linePosition := position
      lineCurpos := curpos
      line := if curpos < position then
          update (rtMemmove s.line curpos (curpos + 1) (position - curpos)) position 0
        else update s.line position 0 }

def tabKey (complete : (Nat → UInt8) → Nat → UInt8) (s : FinshShell) : Option FinshShell :=
  (cstr finshCmdSize (complete s.line)).map fun text =>
    { s with line := complete s.line, linePosition := text.length, lineCurpos := text.length }

/-- A normal character; a line that has become too long is dropped. -/
def normalKey (s : FinshShell) (ch : UInt8) : FinshShell :=
  let position := if finshCmdSize ≤ s.linePosition then 0 else s.linePosition
  let line := if s.lineCurpos < position then
      update (rtMemmove s.line (s.lineCurpos + 1) s.lineCurpos
        (position - s.lineCurpos)) s.lineCurpos ch
    else update s.line position ch
  if finshCmdSize ≤ inc8 position then
    { s with line := line, linePosition := 0, lineCurpos := 0 }
  else { s with line := line, linePosition := inc8 position, lineCurpos := inc8 s.lineCurpos }

/-! ## The end of a line -/

/-- A call of `msh_exec` with the line and its length, or of `finsh_run_line` with the line. -/
structure Execution where
  msh : Bool
  line : Nat → UInt8
  length : Nat

/-- What is executed: `msh_exec` is called for an empty line as well. -/
def executed (msh : Bool) (s : FinshShell) : Option Execution :=
  if msh then some ⟨true, s.line, s.linePosition⟩
  else if s.linePosition ≠ 0 then
    some ⟨false, update s.line s.linePosition semicolon, s.linePosition⟩
  else none

/-- The history is pushed, and after the execution the line is cleared: what a command has written
to the line does not matter. -/
def endOfLine (s : FinshShell) : FinshShell :=
  { shellPushHistory s with
    line := blit s.line 0 finshCmdSize fun _ => 0
    linePosition := 0
    lineCurpos := 0 }

/-! ## One byte after the other -/

/-- Where the thread is: in front of the semaphore, in front of the read of a byte, or in front of
the read of the byte after a carriage return. -/
inductive Point where
  | wait
  | loop
  | peek
  deriving DecidableEq

structure After where
  shell : FinshShell
  point : Point
  call : Option Execution

def finishByte (msh : Bool) (s : FinshShell) (ch : UInt8) : After :=
  if ch = cr ∨ ch = lf then ⟨endOfLine s, .wait, executed msh s⟩
  else ⟨normalKey s ch, .loop, none⟩

def plainByte (complete : (Nat → UInt8) → Nat → UInt8) (msh : Bool) (s : FinshShell) (ch : UInt8) :
    Option After :=
  if ch = cr then some ⟨s, .peek, none⟩
  else if ch = tab then (tabKey complete s).map fun s' => ⟨s', .loop, none⟩
  else if ch = 0x7f ∨ ch = 0x08 then some ⟨backspaceKey s, .loop, none⟩
  else some (finishByte msh s ch)

/-- The last byte of an escape sequence; one that is not known is a byte as any other. -/
def functionByte (complete : (Nat → UInt8) → Nat → UInt8) (msh : Bool) (s : FinshShell)
    (ch : UInt8) : Option After :=
  if ch = 0x41 then (upKey s).map fun s' => ⟨s', .loop, none⟩
  else if ch = 0x42 then (downKey s).map fun s' => ⟨s', .loop, none⟩
  else if ch = 0x44 then some ⟨leftKey s, .loop, none⟩
  else if ch = 0x43 then some ⟨rightKey s, .loop, none⟩
  else plainByte complete msh s ch

def handleByte (complete : (Nat → UInt8) → Nat → UInt8) (msh : Bool) (s : FinshShell)
    (ch : UInt8) : Option After :=
  if ch = esc then some ⟨{ s with stat := .specKey }, .loop, none⟩
  else
    match s.stat with
    | .specKey =>
      if ch = 0x5b then some ⟨{ s with stat := .funcKey }, .loop, none⟩
      else plainByte complete msh { s with stat := .normal } ch
    | .funcKey => functionByte complete msh { s with stat := .normal } ch
    | .normal => plainByte complete msh s ch

/-- What becomes of the byte that is read after a carriage return. -/
def afterReturn : Option UInt8 → UInt8
  | none => cr
  | some next => if next = 0 then cr else next

/-- A call of `rt_device_read`, and what the thread does up to the next one. -/
def onRead (complete : (Nat → UInt8) → Nat → UInt8) (msh : Bool) (s : FinshShell) (p : Point)
    (r : Option UInt8) : Option After :=
  match p with
  | .peek => some (finishByte msh s (afterReturn r))
  | _ =>
    match r with
    | none => some ⟨s, .wait, none⟩
    | some ch => handleByte complete msh s ch

end NbIot.Shell
