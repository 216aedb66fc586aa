import NbIot.Finsh.Editor

/-! # The lines that are executed

A `Console` is the shell with the bytes that wait in the device, the value of the semaphore, and the
calls of `msh_exec` and `finsh_run_line` so far; the device calls `finsh_rx_ind` once for all the
bytes that came in together. `typedLines` is what should be executed. The two agree as long as every
step is `Orderly`, which leaves out what the code does wrong:

* a carriage return is forgotten when a character is already there behind it;
* the zero of a CR NUL is a character of the next line when it comes after the line was executed;
* a line that has become too long is given up, but its bytes stay behind the next one;
* after an execution the shell waits for the next indication with bytes left in the device;
* the `';'` for `finsh_run_line` takes the place of the zero when the line is full.
-/

namespace NbIot.Lines

open CString Kservice Shell List Run

/-! ## Lines as they are typed -/

structure Typing where
  line : List UInt8
  done : List (List UInt8)
  deriving DecidableEq

def Typing.finish (t : Typing) : Typing := ⟨[], if t.line = [] then t.done else t.done ++ [t.line]⟩

/-- A zero is the end of a CR NUL; a line that has `FINSH_CMD_SIZE` characters restarts as empty. -/
def Typing.byte (t : Typing) (b : UInt8) : Typing :=
  if b = cr ∨ b = lf then t.finish
  else if b = 0 then t
  else if t.line.length + 1 = finshCmdSize then { t with line := [] }
  else { t with line := t.line ++ [b] }

def typed (bytes : List UInt8) : Typing := bytes.foldl Typing.byte ⟨[], []⟩

def typedLines (bytes : List UInt8) : List (List UInt8) := (typed bytes).done

/-- Printable characters and line terminators; a zero comes only right after a carriage return. -/
def Stream : Bool → List UInt8 → Prop
  | _, [] => True
  | returned, b :: bs =>
    (Printable b ∨ b = cr ∨ b = lf ∨ (returned = true ∧ b = 0)) ∧ Stream (b == cr) bs

instance decidableStream :
    ∀ (returned : Bool) (bytes : List UInt8), Decidable (Stream returned bytes)
  | _, [] => isTrue trivial
  | _, b :: bs => @instDecidableAnd _ _ _ (decidableStream (b == cr) bs)

def dec32 (n : Nat) : Nat := (n + 2 ^ 32 - 1) % 2 ^ 32

/-- The loop at the beginning of `msh_exec`: where the command begins, and its length. There is no
result if it runs to the end of the line. -/
def mshTrim (line : Nat → UInt8) : Nat → Nat → Nat → Option (Nat × Nat)
  | 0, _, _ => none
  | n + 1, cmd, length =>
    if line cmd = 0x20 ∨ line cmd = tab then mshTrim line n (cmd + 1) (dec32 length)
    else some (cmd, length)

/-- A call for an empty line from which `msh_exec` returns at once is no execution. -/
def IsExecution (e : Execution) : Prop :=
  e.length ≠ 0 ∨ (mshTrim e.line finshCmdSize 0 e.length).map Prod.snd ≠ some 0
  deriving Decidable

/-! ## The console -/

structure Console where
  shell : FinshShell
  point : Point
  /-- the bytes in the device -/
  buffer : List UInt8
  /-- the value of `rx_sem` -/
  sem : Nat
  /-- the bytes that have been read from the device -/
  consumed : List UInt8
  log : List Execution

namespace Console

def start : Console := ⟨.zeroed, .wait, [], 0, [], []⟩

def received (s : Console) : List UInt8 := s.consumed ++ s.buffer

def Idle (s : Console) : Prop := s.point = .wait ∧ s.sem = 0
  deriving Decidable

end Console

inductive Event where
  /-- bytes come in together, with one indication -/
  | arrive (bytes : List UInt8)
  /-- a turn of the thread: `rt_sem_take` or `rt_device_read`, up to the next of them -/
  | turn (msh : Bool)

def Event.bytes : Event → List UInt8
  | .arrive bytes => bytes
  | .turn _ => []

def step (complete : (Nat → UInt8) → Nat → UInt8) (s : Console) : Event → Option Console
  | .arrive bytes => some { s with buffer := s.buffer ++ bytes, sem := (s.sem + 1) % 2 ^ 16 }
  | .turn msh =>
    if s.point = .wait then
      if 0 < s.sem then some { s with point := .loop, sem := s.sem - 1 } else none
    else
      (onRead complete msh s.shell s.point s.buffer.head?).map fun a =>
        { s with
          shell := a.shell
          point := a.point
          buffer := s.buffer.tail
          consumed := s.consumed ++ s.buffer.head?.toList
          log := s.log ++ a.call.toList.filter fun e => IsExecution e }

/-! ## The law -/

/-- The call executes exactly these characters: they are what a reader of the line finds in front
of the zero, with the `';'` behind them for `finsh`. -/
def Exact (e : Execution) (text : List UInt8) : Prop :=
  e.length = text.length ∧
    cstr finshCmdSize e.line = some (if e.msh then text else text ++ [semicolon])
  deriving Decidable

/-- The executions are the first typed lines, and all of them when the thread is blocked. -/
def Faithful (s : Console) : Prop :=
  List.Forall₂ Exact s.log ((typedLines s.received).take s.log.length) ∧
    (s.Idle → List.Forall₂ Exact s.log (typedLines s.received))
  deriving Decidable

/-- The line is executed with no byte left in the device that nothing announces, and for `finsh`
with room for the `';'` in front of the last zero. -/
def OrderlyEnd (s : Console) (msh : Bool) : Prop :=
  (s.buffer.tail = [] ∨ 0 < s.sem) ∧ (msh = true ∨ s.shell.linePosition < finshCmdSize - 1)
  deriving Decidable

def OrderlyRead (s : Console) (msh : Bool) : Point → Option UInt8 → Prop
  | .wait, _ => True
  | .loop, none => True
  | .loop, some b =>
    b ≠ 0 ∧ (b = lf → OrderlyEnd s msh) ∧ (Printable b → s.shell.linePosition < finshCmdSize - 1)
  | .peek, none => OrderlyEnd s msh
  | .peek, some b => if Printable b then s.shell.linePosition = 0 else OrderlyEnd s msh

def Orderly (s : Console) : Event → Prop
  | .arrive _ => s.sem + 1 < 2 ^ 16
  | .turn msh => OrderlyRead s msh s.point s.buffer.head?

instance (s : Console) (msh : Bool) (p : Point) (r : Option UInt8) :
    Decidable (OrderlyRead s msh p r) := by
  unfold OrderlyRead
  split <;> infer_instance

instance (s : Console) (ev : Event) : Decidable (Orderly s ev) := by
  cases ev <;> unfold Orderly <;> infer_instance

/-! ## Typing -/

lemma typed_append (bs cs : List UInt8) : typed (bs ++ cs) = cs.foldl Typing.byte (typed bs) :=
  foldl_append

lemma typed_concat (bs : List UInt8) (b : UInt8) : typed (bs ++ [b]) = (typed bs).byte b :=
  typed_append bs [b]

lemma Typing.done_prefix_byte (t : Typing) (b : UInt8) : t.done <+: (t.byte b).done := by
  unfold Typing.byte Typing.finish
  split
  · split
    · exact prefix_rfl
    exact prefix_append _ _
  split
  · exact prefix_rfl
  split <;> exact prefix_rfl

lemma typedLines_prefix (bs cs : List UInt8) : typedLines bs <+: typedLines (bs ++ cs) := by
  induction cs using List.reverseRecOn with
  | nil => rw [append_nil]
  | append_singleton cs c ih =>
    have hlast : typedLines (bs ++ (cs ++ [c])) = ((typed (bs ++ cs)).byte c).done := by
      rw [typedLines, ← append_assoc, typed_concat]
    rw [hlast]
    exact ih.trans (Typing.done_prefix_byte _ _)

variable {b : UInt8}

lemma Typing.byte_end (t : Typing) (h : b = cr ∨ b = lf) : t.byte b = t.finish := by
  rw [Typing.byte, if_pos h]

lemma Typing.byte_finish (t : Typing) (h : b = cr ∨ b = lf ∨ b = 0) :
    t.finish.byte b = t.finish := by
  rcases h with rfl | rfl | rfl
  · rfl
  · rfl
  rfl

lemma Typing.byte_char (t : Typing) (hb : Printable b)
    (hfit : t.line.length < finshCmdSize - 1) : t.byte b = { t with line := t.line ++ [b] } := by
  have hne : ∀ c : UInt8, ¬ Printable c → b ≠ c := fun c hc hbc => hc (hbc ▸ hb)
  rw [Typing.byte, if_neg (not_or.mpr ⟨hne cr (by decide), hne lf (by decide)⟩),
    if_neg (hne 0 (by decide)), if_neg (by omega)]

/-! ## The shell holds what is typed -/

structure Holds (s : FinshShell) (text : List UInt8) : Prop where
  stat : s.stat = .normal
  padded : Padded finshCmdSize s.line text
  position : s.linePosition = text.length
  curpos : s.lineCurpos = text.length
  fits : text.length < finshCmdSize
  noZero : NoZero text

lemma holds_zeroed : Holds .zeroed [] := ⟨rfl, padded_nil _, rfl, rfl, by decide, by simp [NoZero]⟩

variable {msh : Bool} {complete : (Nat → UInt8) → Nat → UInt8} {s s' : Console}

section

variable {s : FinshShell} {text : List UInt8}

lemma holds_char (h : Holds s text) {c : UInt8} (hc : c ≠ 0)
    (hfit : text.length < finshCmdSize - 1) : Holds (normalKey s c) (text ++ [c]) := by
  have hsize : finshCmdSize = 80 := rfl
  have hinc : inc8 text.length = text.length + 1 := Nat.mod_eq_of_lt (by omega)
  have hlen : (text ++ [c]).length = text.length + 1 := by simp
  have hkey : normalKey s c = { s with
      line := Function.update s.line text.length c
      linePosition := text.length + 1
      lineCurpos := text.length + 1 } := by
    unfold normalKey
    simp only [h.position, h.curpos, hinc, if_neg (lt_irrefl _),
      if_neg (show ¬ finshCmdSize ≤ text.length by omega),
      if_neg (show ¬ finshCmdSize ≤ text.length + 1 by omega)]
  rw [hkey]
  refine ⟨h.stat, padded_append h.padded c, hlen.symm, hlen.symm, by omega, ?_⟩
  exact forall_mem_append.mpr ⟨h.noZero, forall_mem_singleton.mpr hc⟩

lemma holds_endOfLine (h : Holds s text) : Holds (endOfLine s) [] := by
  refine ⟨?_, padded_blit (padded_nil _), rfl, rfl, by decide, by simp [NoZero]⟩
  exact (stat_endOfLine s).trans h.stat

lemma executed_exact (h : Holds s text) (hne : text ≠ [])
    (hroom : msh = true ∨ text.length < finshCmdSize - 1) :
    ∃ e, executed msh s = some e ∧ IsExecution e ∧ Exact e text := by
  have hpos : s.linePosition ≠ 0 := by
    rw [h.position]
    exact fun h0 => hne (eq_nil_of_length_eq_zero h0)
  cases msh with
  | true =>
    refine ⟨_, rfl, .inl hpos, h.position, ?_⟩
    exact h.padded.cstr_eq h.noZero h.fits
  | false =>
    have hlen : text.length < finshCmdSize - 1 := hroom.resolve_left (by decide)
    have hline : Padded finshCmdSize (Function.update s.line s.linePosition semicolon)
        (text ++ [semicolon]) := by
      rw [h.position]
      exact padded_append h.padded semicolon
    refine ⟨⟨false, Function.update s.line s.linePosition semicolon, s.linePosition⟩, ?_,
      .inl hpos, h.position, hline.cstr_eq ?_ ?_⟩
    · rw [executed, if_neg (by decide), if_pos hpos]
    · exact forall_mem_append.mpr ⟨h.noZero, forall_mem_singleton.mpr (by decide)⟩
    rw [length_append, length_singleton]
    omega

lemma executed_empty (h : Holds s []) {e : Execution}
    (he : executed msh s = some e) : ¬ IsExecution e := by
  have hzero : s.line 0 = 0 := h.padded.zero (Nat.le_refl 0) (by decide)
  have hpos : s.linePosition = 0 := h.position
  cases msh with
  | true =>
    cases he
    have htrim : mshTrim s.line finshCmdSize 0 s.linePosition = some (0, 0) := by
      rw [hpos, show finshCmdSize = 79 + 1 from rfl, mshTrim, hzero, if_neg (by decide)]
    rintro (hlen | hrun)
    · exact hlen hpos
    exact hrun (by rw [htrim]; rfl)
  | false =>
    rw [executed, if_neg (by decide), if_neg (by simp [hpos])] at he
    simp at he

lemma log_endOfLine (h : Holds s text) (hroom : msh = true ∨ s.linePosition < finshCmdSize - 1)
    {log : List Execution} {lines : List (List UInt8)} (hlog : List.Forall₂ Exact log lines) :
    List.Forall₂ Exact (log ++ (executed msh s).toList.filter fun e => IsExecution e)
      (Typing.finish ⟨text, lines⟩).done := by
  rw [h.position] at hroom
  by_cases hne : text = []
  · subst hne
    have hnone : (executed msh s).toList.filter (fun e => IsExecution e) = [] := by
      refine filter_eq_nil_iff.mpr fun e he => ?_
      simpa using executed_empty h (Option.mem_toList.mp he)
    rw [hnone, append_nil]
    exact hlog
  obtain ⟨e, he, hcounts, hexact⟩ := executed_exact h hne hroom
  have hone : (executed msh s).toList.filter (fun e => IsExecution e) = [e] := by
    rw [he]
    simp [hcounts]
  rw [hone, Typing.finish, if_neg hne]
  exact rel_append hlog (.cons hexact .nil)

end

/-! ## What a step preserves -/

def IsInput (b : UInt8) : Prop := Printable b ∨ b = cr ∨ b = lf ∨ b = 0

/-- The console has handled the bytes `seen`. In front of the read behind a carriage return, that
carriage return is not one of them. -/
structure Follows (s : Console) (seen : List UInt8) : Prop where
  line : Holds s.shell (typed seen).line
  log : List.Forall₂ Exact s.log (typedLines seen)
  consumed : s.consumed = if s.point = .peek then seen ++ [cr] else seen
  waiting : s.point = .wait → s.buffer = [] ∨ 0 < s.sem

def Inv (s : Console) : Prop := (∃ seen, Follows s seen) ∧ ∀ b ∈ s.buffer, IsInput b

lemma inv_start : Inv .start :=
  ⟨⟨[], holds_zeroed, .nil, rfl, fun _ => .inl rfl⟩, by simp [Console.start]⟩

section

variable {seen : List UInt8} {read : List UInt8}

lemma step_turn (hp : s.point ≠ .wait) {a : After}
    (h : onRead complete msh s.shell s.point s.buffer.head? = some a) :
    step complete s (.turn msh) = some { s with
      shell := a.shell
      point := a.point
      buffer := s.buffer.tail
      consumed := s.consumed ++ s.buffer.head?.toList
      log := s.log ++ a.call.toList.filter fun e => IsExecution e } := by
  rw [step, if_neg hp, h]
  rfl

lemma follows_char (h : Follows s seen) {b : UInt8} {rest : List UInt8}
    (hb : Printable b) (hfit : (typed seen).line.length < finshCmdSize - 1)
    (hsame : typed (seen ++ read) = typed seen) (hread : s.consumed = seen ++ read) :
    Follows { s with
      shell := normalKey s.shell b
      point := .loop
      buffer := rest
      consumed := s.consumed ++ [b]
      log := s.log ++ [] } (seen ++ read ++ [b]) := by
  have hnext : typed (seen ++ read ++ [b]) =
      { typed seen with line := (typed seen).line ++ [b] } := by
    rw [typed_concat, hsame, Typing.byte_char _ hb hfit]
  refine ⟨?_, ?_, ?_, fun hw => Point.noConfusion hw⟩
  · rw [hnext]
    exact holds_char h.line hb.ne_zero hfit
  · rw [typedLines, hnext]
    rw [append_nil]
    exact h.log
  rw [hread]
  rfl

lemma follows_end (h : Follows s seen) (hend : OrderlyEnd s msh)
    (hfinish : typed read = (typed seen).finish)
    (hread : s.consumed ++ s.buffer.head?.toList = read) :
    Follows { s with
      shell := endOfLine s.shell
      point := .wait
      buffer := s.buffer.tail
      consumed := s.consumed ++ s.buffer.head?.toList
      log := s.log ++ (executed msh s.shell).toList.filter fun e => IsExecution e } read := by
  refine ⟨?_, ?_, hread, fun _ => hend.1⟩
  · rw [hfinish]
    exact holds_endOfLine h.line
  rw [typedLines, hfinish]
  exact log_endOfLine h.line hend.2 h.log

lemma turn_wait (h : Follows s seen) (hp : s.point = .wait) (hsem : 0 < s.sem) :
    ∃ s', step complete s (.turn msh) = some s' ∧ Follows s' seen ∧ s'.buffer = s.buffer := by
  have hconsumed : s.consumed = seen := by simpa [hp] using h.consumed
  refine ⟨{ s with point := .loop, sem := s.sem - 1 }, ?_, ?_, rfl⟩
  · rw [step, if_pos hp, if_pos hsem]
  exact ⟨h.line, h.log, hconsumed, fun hw => Point.noConfusion hw⟩

lemma turn_loop (h : Follows s seen) (hp : s.point = .loop) (hin : ∀ b ∈ s.buffer, IsInput b)
    (ho : Orderly s (.turn msh)) :
    ∃ s' seen', step complete s (.turn msh) = some s' ∧ Follows s' seen' ∧
      s'.buffer = s.buffer.tail := by
  have hconsumed : s.consumed = seen := by simpa [hp] using h.consumed
  have hstat := h.line.stat
  have hne : s.point ≠ .wait := by rw [hp]; decide
  cases hbuf : s.buffer with
  | nil =>
    have hread : onRead complete msh s.shell s.point s.buffer.head? =
        some ⟨s.shell, .wait, none⟩ := by rw [hp, hbuf]; rfl
    refine ⟨_, seen, step_turn hne hread, ⟨h.line, ?_, ?_, fun _ => .inl ?_⟩, ?_⟩
    · simpa using h.log
    · simp [hbuf, hconsumed]
    · simp [hbuf]
    simp [hbuf]
  | cons b rest =>
    have hread : onRead complete msh s.shell s.point s.buffer.head? =
        handleByte complete msh s.shell b := by rw [hp, hbuf]; rfl
    have hcond : b ≠ 0 ∧ (b = lf → OrderlyEnd s msh) ∧
        (Printable b → s.shell.linePosition < finshCmdSize - 1) := by
      simpa [Orderly, OrderlyRead, hp, hbuf] using ho
    rcases hin b (by simp [hbuf]) with hb | rfl | rfl | rfl
    · have hfit : (typed seen).line.length < finshCmdSize - 1 := by
        rw [← h.line.position]
        exact hcond.2.2 hb
      have hturn := step_turn hne (hread.trans (handleByte_printable hstat hb msh))
      rw [hbuf] at hturn
      exact ⟨_, _, hturn, follows_char h hb hfit (by rw [append_nil]) (by simpa), rfl⟩
    · -- the carriage return has been read, and is not handled yet
      have hturn := step_turn hne (hread.trans (handleByte_cr hstat msh))
      rw [hbuf] at hturn
      refine ⟨_, seen, hturn, ⟨h.line, ?_, ?_, fun hw => Point.noConfusion hw⟩, rfl⟩
      · simpa using h.log
      simp [hconsumed]
    · have hturn := step_turn hne (hread.trans (handleByte_lf hstat msh))
      refine ⟨_, _, hturn, follows_end h (hcond.2.1 rfl) ?_ rfl, by simp [hbuf]⟩
      rw [hbuf, hconsumed]
      exact (typed_concat seen lf).trans (Typing.byte_end _ (.inr rfl))
    exact absurd rfl hcond.1

lemma turn_peek (h : Follows s seen) (hp : s.point = .peek) (hin : ∀ b ∈ s.buffer, IsInput b)
    (ho : Orderly s (.turn msh)) :
    ∃ s' seen', step complete s (.turn msh) = some s' ∧ Follows s' seen' ∧
      s'.buffer = s.buffer.tail := by
  have hconsumed : s.consumed = seen ++ [cr] := by simpa [hp] using h.consumed
  have hne : s.point ≠ .wait := by rw [hp]; decide
  have hreturn : typed (seen ++ [cr]) = (typed seen).finish := by
    rw [typed_concat, Typing.byte_end _ (.inl rfl)]
  have hread : onRead complete msh s.shell s.point s.buffer.head? =
      some (finishByte msh s.shell (afterReturn s.buffer.head?)) := by rw [hp]; rfl
  have hfinish : (afterReturn s.buffer.head? = cr ∨ afterReturn s.buffer.head? = lf) →
      onRead complete msh s.shell s.point s.buffer.head? =
        some ⟨endOfLine s.shell, .wait, executed msh s.shell⟩ := by
    intro hend
    rw [hread, finishByte, if_pos hend]
  cases hbuf : s.buffer with
  | nil =>
    have hend : OrderlyEnd s msh := by simpa [Orderly, OrderlyRead, hp, hbuf] using ho
    have hturn := step_turn hne (hfinish (.inl (by rw [hbuf]; rfl)))
    refine ⟨_, _, hturn, follows_end h hend ?_ rfl, by simp [hbuf]⟩
    rw [hbuf, hconsumed]
    simpa using hreturn
  | cons b rest =>
    by_cases hb : Printable b
    · -- the line is empty: the carriage return that is lost ended nothing
      have hpos : s.shell.linePosition = 0 := by
        simpa [Orderly, OrderlyRead, hp, hbuf, hb] using ho
      have hnil : (typed seen).line = [] :=
        eq_nil_of_length_eq_zero (h.line.position.symm.trans hpos)
      have hsame : typed (seen ++ [cr]) = typed seen := by
        rw [hreturn, Typing.finish, if_pos hnil, ← hnil]
      have hne' : ∀ c : UInt8, ¬ Printable c → b ≠ c := fun c hc hbc => hc (hbc ▸ hb)
      have hchar : onRead complete msh s.shell s.point s.buffer.head? =
          some ⟨normalKey s.shell b, .loop, none⟩ := by
        have hafter : afterReturn s.buffer.head? = b := by
          rw [hbuf]
          exact if_neg (hne' 0 (by decide))
        rw [hread, hafter, finishByte,
          if_neg (not_or.mpr ⟨hne' cr (by decide), hne' lf (by decide)⟩)]
      have hturn := step_turn hne hchar
      rw [hbuf] at hturn
      refine ⟨_, _, hturn, follows_char h hb ?_ hsame hconsumed, rfl⟩
      rw [hnil]
      decide
    have hend : OrderlyEnd s msh := by simpa [Orderly, OrderlyRead, hp, hbuf, hb] using ho
    have hmore : b = cr ∨ b = lf ∨ b = 0 := (hin b (by simp [hbuf])).resolve_left hb
    have hafter : afterReturn s.buffer.head? = cr ∨ afterReturn s.buffer.head? = lf := by
      rw [hbuf]
      rcases hmore with rfl | rfl | rfl
      · exact .inl rfl
      · exact .inr rfl
      exact .inl rfl
    have hturn := step_turn hne (hfinish hafter)
    refine ⟨_, _, hturn, follows_end h hend ?_ rfl, by simp [hbuf]⟩
    rw [hbuf, hconsumed]
    show typed (seen ++ [cr] ++ [b]) = _
    rw [typed_concat, hreturn, Typing.byte_finish _ hmore]

variable (complete) in
lemma inv_turn (h : Inv s) (hidle : ¬ s.Idle) (ho : Orderly s (.turn msh)) :
    ∃ s', step complete s (.turn msh) = some s' ∧ Inv s' := by
  obtain ⟨⟨seen, hf⟩, hin⟩ := h
  have htail : ∀ b ∈ s.buffer.tail, IsInput b := fun b hb => hin b (mem_of_mem_tail hb)
  cases hp : s.point with
  | wait =>
    have hsem : 0 < s.sem := pos_of_ne_zero fun h0 => hidle ⟨hp, h0⟩
    obtain ⟨s', hstep, hf', hbuf⟩ := turn_wait hf hp hsem
    exact ⟨s', hstep, ⟨seen, hf'⟩, hbuf ▸ hin⟩
  | loop =>
    obtain ⟨s', seen', hstep, hf', hbuf⟩ := turn_loop hf hp hin ho
    exact ⟨s', hstep, ⟨seen', hf'⟩, hbuf ▸ htail⟩
  | peek =>
    obtain ⟨s', seen', hstep, hf', hbuf⟩ := turn_peek hf hp hin ho
    exact ⟨s', hstep, ⟨seen', hf'⟩, hbuf ▸ htail⟩

lemma inv_arrive (h : Inv s) {bytes : List UInt8} (hsem : s.sem + 1 < 2 ^ 16)
    (hin : ∀ b ∈ bytes, IsInput b) :
    Inv { s with buffer := s.buffer ++ bytes, sem := (s.sem + 1) % 2 ^ 16 } := by
  obtain ⟨⟨seen, hf⟩, hbuf⟩ := h
  refine ⟨⟨seen, hf.line, hf.log, hf.consumed, fun _ => .inr ?_⟩, forall_mem_append.mpr ⟨hbuf, hin⟩⟩
  rw [Nat.mod_eq_of_lt hsem]
  exact Nat.succ_pos _

lemma inv_step {ev : Event} (h : Inv s) (ho : Orderly s ev) (hin : ∀ b ∈ ev.bytes, IsInput b)
    (hstep : step complete s ev = some s') : Inv s' := by
  cases ev with
  | arrive bytes =>
    cases hstep
    exact inv_arrive h ho hin
  | turn msh =>
    have hidle : ¬ s.Idle := by
      rintro ⟨hp, hsem⟩
      rw [step, if_pos hp, if_neg (by omega)] at hstep
      simp at hstep
    obtain ⟨t, ht, hinv⟩ := inv_turn complete h hidle ho
    rwa [Option.some.inj (hstep.symm.trans ht)]

end

/-! ## Whole runs -/

lemma turn_cases (h : step complete s (.turn msh) = some s') :
    (s.point = .wait ∧ 0 < s.sem ∧ s' = { s with point := .loop, sem := s.sem - 1 }) ∨
      (s.point ≠ .wait ∧ ∃ a, onRead complete msh s.shell s.point s.buffer.head? = some a ∧
        s' = { s with
          shell := a.shell
          point := a.point
          buffer := s.buffer.tail
          consumed := s.consumed ++ s.buffer.head?.toList
          log := s.log ++ a.call.toList.filter fun e => IsExecution e }) := by
  rw [step] at h
  by_cases hp : s.point = .wait
  · rw [if_pos hp] at h
    obtain ⟨hsem, heq⟩ := Option.ite_none_right_eq_some.mp h
    exact .inl ⟨hp, hsem, (Option.some.inj heq).symm⟩
  rw [if_neg hp] at h
  obtain ⟨a, ha, heq⟩ := Option.map_eq_some_iff.mp h
  exact .inr ⟨hp, a, ha, heq.symm⟩

lemma received_step {ev : Event} (h : step complete s ev = some s') :
    s'.received = s.received ++ ev.bytes := by
  cases ev with
  | arrive bytes =>
    cases h
    exact (append_assoc _ _ _).symm
  | turn msh =>
    have hsplit : s.buffer.head?.toList ++ s.buffer.tail = s.buffer := by cases s.buffer <;> rfl
    rw [Event.bytes, append_nil]
    rcases turn_cases h with ⟨-, -, rfl⟩ | ⟨-, a, -, rfl⟩
    · rfl
    show s.consumed ++ s.buffer.head?.toList ++ s.buffer.tail = s.consumed ++ s.buffer
    rw [append_assoc, hsplit]

lemma received_exec {evs : List Event} (h : exec (step complete) s evs = some s') :
    s'.received = s.received ++ evs.flatMap Event.bytes := by
  induction evs generalizing s with
  | nil =>
    cases h
    simp
  | cons ev evs ih =>
    obtain ⟨t, ht, hrest⟩ := exec_cons_eq_some.mp h
    rw [ih hrest, received_step ht, append_assoc, flatMap_cons]

lemma isInput_of_stream {returned : Bool} {bytes : List UInt8} (h : Stream returned bytes) :
    ∀ b ∈ bytes, IsInput b := by
  induction bytes generalizing returned with
  | nil => simp
  | cons c cs ih =>
    obtain ⟨hc, hcs⟩ := h
    exact forall_mem_cons.mpr ⟨hc.imp_right (Or.imp_right (Or.imp_right And.right)), ih hcs⟩

lemma Inv.faithful (h : Inv s) : Faithful s := by
  obtain ⟨⟨seen, hf⟩, -⟩ := h
  have hpre : typedLines seen <+: typedLines s.received := by
    have hrec : ∃ more, s.received = seen ++ more := by
      rw [Console.received, hf.consumed]
      split
      · exact ⟨[cr] ++ s.buffer, append_assoc _ _ _⟩
      exact ⟨s.buffer, rfl⟩
    obtain ⟨more, hmore⟩ := hrec
    rw [hmore]
    exact typedLines_prefix seen more
  refine ⟨?_, ?_⟩
  · rw [hf.log.length_eq, ← prefix_iff_eq_take.mp hpre]
    exact hf.log
  rintro ⟨hp, hsem⟩
  have hbuf : s.buffer = [] := (hf.waiting hp).resolve_right (by omega)
  have hconsumed : s.consumed = seen := by simpa [hp] using hf.consumed
  rw [Console.received, hbuf, append_nil, hconsumed]
  exact hf.log

def Console.work (s : Console) : Nat :=
  2 * s.sem + s.buffer.length + if s.point = .wait then 0 else 1

lemma work_turn (h : step complete s (.turn msh) = some s') : s'.work < s.work := by
  unfold Console.work
  rcases turn_cases h with ⟨hp, hsem, rfl⟩ | ⟨hp, a, ha, rfl⟩
  · simp only [reduceCtorEq, if_false]
    omega
  simp only [if_neg hp]
  cases hbuf : s.buffer with
  | nil =>
    -- a read that returns nothing is the last one before the thread waits
    have hwait : a.point = .wait := by
      rw [hbuf] at ha
      cases hpt : s.point with
      | wait => exact absurd hpt hp
      | loop | peek =>
        rw [hpt] at ha
        cases ha
        rfl
    simp [hwait]
  | cons b rest =>
    simp only [tail_cons, length_cons]
    split <;> omega

lemma idle_of_turns (h : Inv s) {flags : List Bool} (hlen : s.work ≤ flags.length)
    (ho : Meets (step complete) Orderly s (flags.map Event.turn)) :
    ∃ s', Reached (step complete) s (flags.map Event.turn) s' ∧ Inv s' ∧ s'.Idle := by
  induction flags generalizing s with
  | nil =>
    have hwork : s.work = 0 := Nat.le_zero.mp hlen
    refine ⟨s, reached_last rfl, h, ?_, ?_⟩
    · by_contra hp
      simp [Console.work, hp] at hwork
    unfold Console.work at hwork
    omega
  | cons msh flags ih =>
    by_cases hidle : s.Idle
    · exact ⟨s, ⟨[], nil_prefix, rfl⟩, h, hidle⟩
    obtain ⟨t, ht, hinv⟩ := inv_turn complete h hidle ho.1
    have hless := work_turn ht
    have hshort : t.work ≤ flags.length := by
      rw [length_cons] at hlen
      omega
    obtain ⟨s', hreach, hinv', hidle'⟩ := ih hinv hshort (ho.2 t ht)
    exact ⟨s', reached_cons.mpr (.inr ⟨t, ht, hreach⟩), hinv', hidle'⟩

/-- **Every typed line is executed exactly as typed**, in every orderly run: what has been executed
are the first of the typed lines, all of them when the thread is blocked, and it gets there by
itself. -/
theorem typedLines_executed_of_orderly (complete : (Nat → UInt8) → Nat → UInt8) (evs : List Event)
    (s : Console) (hstream : Stream false (evs.flatMap Event.bytes))
    (ho : Meets (step complete) Orderly .start evs)
    (hexec : exec (step complete) .start evs = some s) :
    s.received = evs.flatMap Event.bytes ∧ Faithful s ∧ ∀ flags : List Bool, s.work ≤ flags.length →
        Meets (step complete) Orderly s (flags.map Event.turn) →
        ∃ s', Reached (step complete) s (flags.map Event.turn) s' ∧ s'.Idle ∧
          List.Forall₂ Exact s'.log (typedLines (evs.flatMap Event.bytes)) := by
  have hrec : s.received = evs.flatMap Event.bytes := received_exec hexec
  have hinput : ∀ ev ∈ evs, ∀ b ∈ ev.bytes, IsInput b := fun ev hev b hb =>
    isInput_of_stream hstream b (mem_flatMap.mpr ⟨ev, hev, hb⟩)
  have hboth : Meets (step complete) (fun s ev => Orderly s ev ∧ ∀ b ∈ ev.bytes, IsInput b)
      .start evs := ho.and (meets_of_forall_mem hinput)
  have hinv : Inv s :=
    inv_of_meets (fun _ _ _ hI hC hstep => inv_step hI hC.1 hC.2 hstep) inv_start hboth hexec
  refine ⟨hrec, hinv.faithful, fun flags hlen hturns => ?_⟩
  obtain ⟨s', hreach, hinv', hidle⟩ := idle_of_turns hinv hlen hturns
  refine ⟨s', hreach, hidle, ?_⟩
  obtain ⟨pre, hpre, hpexec⟩ := hreach
  obtain ⟨fs, -, rfl⟩ := prefix_map_iff.mp hpre
  have hsame : s'.received = evs.flatMap Event.bytes := by
    have hnone : (fs.map Event.turn).flatMap Event.bytes = [] := by
      simp [flatMap_map, Event.bytes]
    rw [received_exec hpexec, hnone, append_nil, hrec]
  rw [← hsame]
  exact hinv'.faithful.2 hidle

def oneLine : List Event := .arrive [0x6c, 0x73, cr, lf] :: List.replicate 5 (.turn true)

theorem typedLines_executed_of_orderly_oneLine : Stream false (oneLine.flatMap Event.bytes) ∧
    Meets (step id) Orderly .start oneLine ∧
    ∃ s, exec (step id) .start oneLine = some s ∧ s.Idle ∧ s.log.length = 1 ∧
      s.received = [0x6c, 0x73, cr, lf] ∧ Faithful s := by
  have hstream : Stream false (oneLine.flatMap Event.bytes) := by decide
  have ho : Meets (step id) Orderly .start oneLine := by decide +kernel
  have hrun : (exec (step id) .start oneLine).isSome = true := by decide +kernel
  obtain ⟨s, hs⟩ := Option.isSome_iff_exists.mp hrun
  have hend : (exec (step id) .start oneLine).any
      (fun s => decide (s.Idle ∧ s.log.length = 1)) = true := by decide +kernel
  rw [hs] at hend
  obtain ⟨hidle, hlog⟩ := of_decide_eq_true hend
  obtain ⟨hrec, hfaithful, -⟩ := typedLines_executed_of_orderly id oneLine s hstream ho hs
  exact ⟨hstream, ho, s, hs, hidle, hlog, hrec, hfaithful⟩

/-- `"a\rb\n"` comes in at once. -/
def mergedLines : List Event := .arrive [0x61, cr, 0x62, lf] :: List.replicate 5 (.turn true)

def lateZero : List Event :=
  .arrive [0x61, cr] :: List.replicate 4 (.turn true) ++
    .arrive [0, 0x62, lf] :: List.replicate 4 (.turn true)

def staleTail : List Event :=
  .arrive (List.replicate 81 0x61 ++ [lf]) :: List.replicate 83 (.turn true)

def leftBehind : List Event := .arrive [0x61, lf, 0x62, lf] :: List.replicate 3 (.turn true)

/-- A line of 79 characters for `finsh`. -/
def fullLine : List Event :=
  .arrive (List.replicate 79 0x61 ++ [lf]) :: List.replicate 81 (.turn false)

/-- Without the condition, each of these inputs is executed as something that was not typed. The
first one is executed as the one line `"ab"`. -/
theorem lines_not_executed_as_typed : (exec (step id) .start mergedLines).map
        (fun s => (typedLines s.received, s.log.map fun e => cstr finshCmdSize e.line)) =
      some ([[0x61], [0x62]], [some [0x61, 0x62]]) ∧
    ∀ evs ∈ [mergedLines, lateZero, staleTail, leftBehind, fullLine],
      Stream false (evs.flatMap Event.bytes) ∧
        ∃ s, exec (step id) .start evs = some s ∧ ¬ Faithful s := by
  refine ⟨by decide +kernel, ?_⟩
  have hruns : ∀ evs ∈ [mergedLines, lateZero, staleTail, leftBehind, fullLine],
      Stream false (evs.flatMap Event.bytes) ∧
        (exec (step id) .start evs).any (fun s => decide (¬ Faithful s)) = true := by
    decide +kernel
  intro evs hevs
  obtain ⟨hstream, hany⟩ := hruns evs hevs
  obtain ⟨s, hs, hbad⟩ := (Option.any_eq_true _ _).mp hany
  exact ⟨hstream, s, hs, of_decide_eq_true hbad⟩

end NbIot.Lines
