import NbIot.Finsh.Shell

/-! # The shell refines a line editor

`Editor` is what the line editor of the shell is for: a text with a cursor, the last
`FINSH_HISTORY_LINES` lines that were not empty, and an index into them. `Shows s e` says that the
state `s` of the shell represents the editor `e`: the text is in the line, all bytes behind it are
zero, the entries of the history are in the rows in the same way, and the numbers are the same.
-/

namespace NbIot.Shell

open CString Kservice Function List Run

/-! ## The editor -/

inductive Arrow where
  | up
  | down
  | left
  | right
  deriving DecidableEq

inductive Key where
  | char (c : UInt8)
  | backspace
  | arrow (a : Arrow)
  | enter
  deriving DecidableEq

structure Editor where
  text : List UInt8
  cursor : Nat
  history : List (List UInt8)
  index : Nat
  deriving DecidableEq

namespace Editor

def empty : Editor := ⟨[], 0, [], 0⟩

def select (e : Editor) (index : Nat) : Editor :=
  match e.history[index]? with
  | some entry => { e with text := entry, cursor := entry.length, index := index }
  | none => e

/-- The history after a line has been executed: its last lines, the empty one left out. -/
def remember (history : List (List UInt8)) (text : List UInt8) : List (List UInt8) :=
  if text = [] then history
  else (history ++ [text]).drop (history.length + 1 - finshHistoryLines)

def key (e : Editor) : Key → Editor
  | .char c => { e with text := e.text.insertIdx e.cursor c, cursor := e.cursor + 1 }
  | .backspace =>
    if e.cursor = 0 then e
    else { e with text := e.text.eraseIdx (e.cursor - 1), cursor := e.cursor - 1 }
  | .arrow .up => if e.index = 0 then e else e.select (e.index - 1)
  | .arrow .down =>
    if e.history = [] then e else e.select (min (e.index + 1) (e.history.length - 1))
  | .arrow .left => { e with cursor := e.cursor - 1 }
  | .arrow .right => { e with cursor := min (e.cursor + 1) e.text.length }
  | .enter =>
    { text := []
      cursor := 0
      history := remember e.history e.text
      index := (remember e.history e.text).length }

def keys (e : Editor) (ks : List Key) : Editor := ks.foldl key e

end Editor

/-! ## Bytes for keys -/

structure Read where
  byte : Option UInt8
  msh : Bool

structure State where
  shell : FinshShell
  point : Point

def step (complete : (Nat → UInt8) → Nat → UInt8) (s : State) (r : Read) : Option State :=
  (onRead complete r.msh s.shell s.point r.byte).map fun a => ⟨a.shell, a.point⟩

def Arrow.code : Arrow → UInt8
  | .up => 0x41
  | .down => 0x42
  | .left => 0x44
  | .right => 0x43

inductive Types : Key → List (Option UInt8) → Prop where
  | char {c : UInt8} (hc : Printable c) : Types (.char c) [some c]
  | backspace : Types .backspace [some 0x08]
  | delete : Types .backspace [some 0x7f]
  | arrow (a : Arrow) (m n : Nat) : Types (.arrow a)
      ([some esc] ++ List.replicate m none ++ [some 0x5b] ++ List.replicate n none ++ [some a.code])
  | lineFeed : Types .enter [some lf]
  | carriageReturn {next : Option UInt8} (hnext : afterReturn next = cr ∨ afterReturn next = lf) :
      Types .enter [some cr, next]
  -- a byte that is already there behind a carriage return takes its place, whatever it is
  | returned {c : UInt8} (hz : c ≠ 0) (hcr : c ≠ cr) (hlf : c ≠ lf) :
      Types (.char c) [some cr, some c]

inductive Feeds : List Key → List (Option UInt8) → Prop where
  | nil : Feeds [] []
  | idle {ks : List Key} {rs : List (Option UInt8)} (h : Feeds ks rs) : Feeds ks (none :: rs)
  | key {k : Key} {ks : List Key} {r rs : List (Option UInt8)} (hk : Types k r)
      (h : Feeds ks rs) : Feeds (k :: ks) (r ++ rs)

/-! ## The shell shows the editor -/

structure Line (s : FinshShell) (text : List UInt8) (cursor : Nat) : Prop where
  stat : s.stat = .normal
  padded : Padded finshCmdSize s.line text
  position : s.linePosition = text.length
  curpos : s.lineCurpos = cursor
  cursor_le : cursor ≤ text.length
  fits : text.length < finshCmdSize - 1
  noZero : NoZero text

structure Past (s : FinshShell) (history : List (List UInt8)) (index : Nat) : Prop where
  count : s.historyCount = history.length
  count_le : history.length ≤ finshHistoryLines
  current : s.currentHistory = index
  index_le : index ≤ history.length
  rows : ∀ (j : Nat) (hj : j < history.length), Padded finshCmdSize (s.cmdHistory j) history[j]
  fits : ∀ t ∈ history, t.length < finshCmdSize - 1
  noZero : ∀ t ∈ history, NoZero t

structure Shows (s : FinshShell) (e : Editor) : Prop where
  line : Line s e.text e.cursor
  past : Past s e.history e.index

lemma shows_zeroed : Shows .zeroed .empty := by
  refine ⟨⟨rfl, padded_nil _, rfl, rfl, le_rfl, by decide, by simp [NoZero, Editor.empty]⟩,
    ⟨rfl, by decide, rfl, le_rfl, ?_, by simp [Editor.empty], by simp [Editor.empty]⟩⟩
  intro j hj
  exact absurd hj (Nat.not_lt_zero j)

lemma Past.congr {s s' : FinshShell} {history : List (List UInt8)} {index : Nat}
    (h : Past s history index) (hrows : s'.cmdHistory = s.cmdHistory)
    (hcount : s'.historyCount = s.historyCount) (hindex : s'.currentHistory = s.currentHistory) :
    Past s' history index :=
  ⟨hcount.trans h.count, h.count_le, hindex.trans h.current, h.index_le, hrows ▸ h.rows, h.fits,
    h.noZero⟩

/-! ## Keys -/

section

variable {s : FinshShell} {e : Editor}

lemma shows_char (h : Shows s e) {c : UInt8} (hc : c ≠ 0)
    (hfit : (e.key (.char c)).text.length < finshCmdSize - 1) :
    Shows (normalKey s c) (e.key (.char c)) := by
  have hl := h.line
  have hle := hl.cursor_le
  have hlen : (e.text.insertIdx e.cursor c).length = e.text.length + 1 :=
    length_insertIdx_of_le_length hle c
  have hfit' : e.text.length + 1 < finshCmdSize - 1 := by rwa [← hlen]
  have hsize : finshCmdSize = 80 := rfl
  have hinc : inc8 e.text.length = e.text.length + 1 := Nat.mod_eq_of_lt (by omega)
  have hincc : inc8 e.cursor = e.cursor + 1 := Nat.mod_eq_of_lt (by omega)
  have hkey : normalKey s c = { s with
      line := if e.cursor < e.text.length then
          update (rtMemmove s.line (e.cursor + 1) e.cursor (e.text.length - e.cursor))
            e.cursor c
        else update s.line e.text.length c
      linePosition := e.text.length + 1
      lineCurpos := e.cursor + 1 } := by
    unfold normalKey
    simp only [hl.position, hl.curpos, if_neg (show ¬ finshCmdSize ≤ e.text.length by omega), hinc,
      hincc, if_neg (show ¬ finshCmdSize ≤ e.text.length + 1 by omega)]
  rw [hkey]
  refine ⟨⟨hl.stat, ?_, ?_, rfl, ?_, hfit, ?_⟩, h.past.congr rfl rfl rfl⟩
  · show Padded finshCmdSize (if _ then _ else _) (e.text.insertIdx e.cursor c)
    split
    · rw [rtMemmove_eq]
      exact padded_insert hl.padded hle c
    have hend : e.cursor = e.text.length := by omega
    rw [hend, insertIdx_length_self]
    exact padded_append hl.padded c
  · exact hlen.symm
  · show e.cursor + 1 ≤ (e.text.insertIdx e.cursor c).length
    omega
  intro x hx
  rcases eq_or_mem_of_mem_insertIdx hx with rfl | hx
  · exact hc
  exact hl.noZero x hx

lemma shows_backspace (h : Shows s e) : Shows (backspaceKey s) (e.key .backspace) := by
  have hl := h.line
  have hle := hl.cursor_le
  have hfits := hl.fits
  have hsize : finshCmdSize = 80 := rfl
  by_cases hz : e.cursor = 0
  · have hkey : backspaceKey s = s := if_pos (hl.curpos.trans hz)
    rw [hkey, Editor.key, if_pos hz]
    exact h
  have hdec : dec8 e.text.length = e.text.length - 1 := by
    unfold dec8
    omega
  have hlen : (e.text.eraseIdx (e.cursor - 1)).length = e.text.length - 1 :=
    length_eraseIdx_of_lt (by omega)
  have hkey : backspaceKey s = { s with
      linePosition := e.text.length - 1
      lineCurpos := e.cursor - 1
      line := if e.cursor - 1 < e.text.length - 1 then
          update (rtMemmove s.line (e.cursor - 1) (e.cursor - 1 + 1)
            (e.text.length - 1 - (e.cursor - 1))) (e.text.length - 1) 0
        else update s.line (e.text.length - 1) 0 } := by
    unfold backspaceKey
    rw [hl.curpos, if_neg hz, hl.position, hdec]
  rw [hkey, Editor.key, if_neg hz]
  have herase := padded_erase hl.padded (c := e.cursor - 1) (by omega) (by omega)
  refine ⟨⟨hl.stat, ?_, hlen.symm, rfl, ?_, ?_, ?_⟩, h.past.congr rfl rfl rfl⟩
  · split
    · rw [rtMemmove_eq]
      exact herase
    -- the cursor is at the end, and there is nothing to move
    have hnone : e.text.length - 1 - (e.cursor - 1) = 0 := by omega
    have hblit : blit s.line (e.cursor - 1) 0 (fun i => s.line (e.cursor - 1 + 1 + i)) = s.line :=
      funext fun i => if_neg (by omega)
    rwa [hnone, hblit] at herase
  · show e.cursor - 1 ≤ (e.text.eraseIdx (e.cursor - 1)).length
    omega
  · show (e.text.eraseIdx (e.cursor - 1)).length < finshCmdSize - 1
    omega
  exact fun x hx => hl.noZero x (mem_of_mem_eraseIdx hx)

lemma shows_left (h : Shows s e) : Shows (leftKey s) (e.key (.arrow .left)) := by
  have hl := h.line
  have hle := hl.cursor_le
  unfold leftKey
  rw [hl.curpos]
  split
  · exact ⟨⟨hl.stat, hl.padded, hl.position, rfl, (Nat.sub_le _ _).trans hle, hl.fits, hl.noZero⟩,
      h.past.congr rfl rfl rfl⟩
  refine ⟨⟨hl.stat, hl.padded, hl.position, ?_, (Nat.sub_le _ _).trans hle, hl.fits, hl.noZero⟩,
    h.past⟩
  rw [hl.curpos]
  show e.cursor = e.cursor - 1
  omega

lemma shows_right (h : Shows s e) : Shows (rightKey s) (e.key (.arrow .right)) := by
  have hl := h.line
  have hle := hl.cursor_le
  have hmin : min (e.cursor + 1) e.text.length ≤ e.text.length := Nat.min_le_right _ _
  unfold rightKey
  rw [hl.curpos, hl.position]
  split
  · refine ⟨⟨hl.stat, hl.padded, rfl, ?_, hmin, hl.fits, hl.noZero⟩, h.past.congr rfl rfl rfl⟩
    show e.cursor + 1 = min (e.cursor + 1) e.text.length
    omega
  refine ⟨⟨hl.stat, hl.padded, hl.position, ?_, hmin, hl.fits, hl.noZero⟩, h.past⟩
  rw [hl.curpos]
  show e.cursor = min (e.cursor + 1) e.text.length
  omega

end

lemma padded_blit {n : Nat} {buf row : Nat → UInt8} {text : List UInt8} (h : Padded n row text) :
    Padded n (blit buf 0 n row) text := by
  refine h.congr fun i hi => ?_
  rw [blit, if_pos (by omega), Nat.sub_zero]

/-! ## The history -/

section

variable {s : FinshShell} {e : Editor}

lemma shows_select (h : Shows s e) {index : Nat} (hi : index < e.history.length) :
    ∃ s', copyHistory s index = some s' ∧ Shows s' (e.select index) := by
  have hp := h.past
  have hmem : e.history[index] ∈ e.history := getElem_mem hi
  have hfits := hp.fits _ hmem
  have hnz := hp.noZero _ hmem
  have hrow : Padded finshCmdSize (blit s.line 0 finshCmdSize (s.cmdHistory index))
      e.history[index] := padded_blit (hp.rows index hi)
  have hsel : e.select index =
      { e with text := e.history[index], cursor := e.history[index].length, index := index } := by
    rw [Editor.select, getElem?_eq_getElem hi]
  have hcopy : copyHistory s index = some { s with
      currentHistory := index
      line := blit s.line 0 finshCmdSize (s.cmdHistory index)
      linePosition := e.history[index].length
      lineCurpos := e.history[index].length } := by
    rw [copyHistory, hrow.cstr_eq hnz (by omega)]
    rfl
  rw [hsel]
  exact ⟨_, hcopy, ⟨h.line.stat, hrow, rfl, rfl, le_rfl, hfits, hnz⟩,
    ⟨hp.count, hp.count_le, rfl, hi.le, hp.rows, hp.fits, hp.noZero⟩⟩

lemma shows_up (h : Shows s e) : ∃ s', upKey s = some s' ∧ Shows s' (e.key (.arrow .up)) := by
  have hp := h.past
  have hle := hp.index_le
  unfold upKey
  rw [hp.current, Editor.key]
  by_cases hz : e.index = 0
  · rw [if_pos hz, if_neg (by omega)]
    refine ⟨_, rfl, ⟨h.line.stat, h.line.padded, h.line.position, h.line.curpos, h.line.cursor_le,
      h.line.fits, h.line.noZero⟩, hp.congr rfl rfl ?_⟩
    rw [hp.current, hz]
  rw [if_neg hz, if_pos (by omega)]
  exact shows_select h (by omega)

lemma shows_down (h : Shows s e) : ∃ s', downKey s = some s' ∧ Shows s' (e.key (.arrow .down)) := by
  have hp := h.past
  unfold downKey
  rw [hp.current, hp.count, Editor.key]
  by_cases hnil : e.history = []
  · have hlen : e.history.length = 0 := by rw [hnil]; rfl
    rw [if_pos hnil, if_neg (by omega), if_neg (by omega)]
    exact ⟨s, rfl, h⟩
  have hpos : 0 < e.history.length := length_pos_of_ne_nil hnil
  rw [if_neg hnil]
  by_cases hlt : (e.index : Int) < e.history.length - 1
  · rw [if_pos hlt, min_eq_left (by omega)]
    exact shows_select h (by omega)
  rw [if_neg hlt, if_pos (by omega), min_eq_right (by omega)]
  exact shows_select h (by omega)

lemma moveHistory_eq (rows : Nat → Nat → UInt8) (index n j : Nat) {i : Nat}
    (hi : i < finshCmdSize) :
    moveHistory rows index n j i =
      if index ≤ j ∧ j < index + n then rows (j + 1) i else rows j i := by
  induction n generalizing rows index with
  | zero => rw [moveHistory, if_neg (by omega)]
  | succ n ih =>
    rw [moveHistory, ih]
    by_cases hj : j = index
    · subst hj
      rw [if_neg (by omega), if_pos (by omega), copyRow, update_self, blit,
        if_pos (by omega), Nat.sub_zero]
    have hnext : copyRow rows index (index + 1) j = rows j := update_of_ne hj _ _
    by_cases hin : index + 1 ≤ j ∧ j < index + 1 + n
    · rw [if_pos hin, if_pos (by omega), copyRow, update_of_ne (by omega)]
    rw [if_neg hin, if_neg (by omega), hnext]

def Rows (rows : Nat → Nat → UInt8) (history : List (List UInt8)) : Prop :=
  ∀ (j : Nat) (hj : j < history.length), Padded finshCmdSize (rows j) history[j]

lemma rows_move {rows : Nat → Nat → UInt8} {oldest : List UInt8} {rest : List (List UInt8)}
    (h : Rows rows (oldest :: rest)) : Rows (moveHistory rows 0 rest.length) rest := by
  intro j hj
  refine (h (j + 1) (Nat.succ_lt_succ hj)).congr fun i hi => ?_
  rw [moveHistory_eq _ _ _ _ hi, if_pos (by omega)]

lemma rows_store {rows : Nat → Nat → UInt8} {history : List (List UInt8)} (h : Rows rows history)
    {line : Nat → UInt8} {text : List UInt8} (hblock : block line text.length = text) :
    Rows (storeRow rows history.length line text.length) (history ++ [text]) := by
  intro j hj
  rw [length_append, length_singleton] at hj
  by_cases hlast : j = history.length
  · subst hlast
    rw [getElem_append_right (le_rfl)]
    simp only [Nat.sub_self]
    refine (padded_copy hblock finshCmdSize).congr fun i hi => ?_
    rw [storeRow, update_self]
    simp only [blit]
    by_cases hin : 0 ≤ i ∧ i < 0 + text.length
    · rw [if_pos hin, if_pos hin]
    rw [if_neg hin, if_neg hin, if_pos (by omega)]
  rw [getElem_append_left (by omega), storeRow, update_of_ne hlast]
  exact h j (by omega)

lemma past_push (h : Shows s e) (hne : e.text ≠ []) :
    ∃ kept : List (List UInt8), (∀ t ∈ kept, t ∈ e.history) ∧
      Editor.remember e.history e.text = kept ++ [e.text] ∧
      kept.length < finshHistoryLines ∧
      Rows (shellPushHistory s).cmdHistory (kept ++ [e.text]) ∧
      (shellPushHistory s).historyCount = kept.length + 1 ∧
      (shellPushHistory s).currentHistory = kept.length + 1 := by
  have hblock : block s.line e.text.length = e.text :=
    h.line.padded.block_eq (by have := h.line.fits; omega)
  have hpos : e.text.length ≠ 0 := fun h0 => hne (eq_nil_of_length_eq_zero h0)
  have hle := h.past.count_le
  have hrows : Rows s.cmdHistory e.history := h.past.rows
  unfold shellPushHistory Editor.remember
  simp only [h.line.position, h.past.count]
  rw [if_pos hpos, if_neg hne]
  by_cases hfull : finshHistoryLines ≤ e.history.length
  · rw [if_pos hfull]
    cases hcase : e.history with
    | nil =>
      rw [hcase] at hfull
      exact absurd hfull (by decide)
    | cons oldest rest =>
      rw [hcase] at hrows hle hfull
      simp only [length_cons] at hle hfull
      have hrest : rest.length = finshHistoryLines - 1 := by omega
      have hmoved := rows_store (rows_move hrows) hblock
      rw [hrest] at hmoved
      refine ⟨rest, fun t ht => mem_cons_of_mem _ ht, ?_, by omega, hmoved, ?_, ?_⟩
      · rw [show (oldest :: rest).length + 1 - finshHistoryLines = 1 by
          rw [length_cons]; omega]
        rfl
      · show finshHistoryLines = rest.length + 1
        omega
      show finshHistoryLines = rest.length + 1
      omega
  rw [if_neg hfull]
  refine ⟨e.history, fun t ht => ht, ?_, by omega, rows_store hrows hblock, rfl, rfl⟩
  rw [show e.history.length + 1 - finshHistoryLines = 0 by omega, drop_zero]

lemma past_remember (h : Shows s e) : Past (shellPushHistory s) (Editor.remember e.history e.text)
      (Editor.remember e.history e.text).length := by
  by_cases hnil : e.text = []
  · have hsame : shellPushHistory s = { s with currentHistory := s.historyCount } := by
      have hzero : ¬ s.linePosition ≠ 0 := by simp [h.line.position, hnil]
      unfold shellPushHistory
      simp only [if_neg hzero]
    have hkept : Editor.remember e.history e.text = e.history := by
      rw [Editor.remember, if_pos hnil]
    have hp := h.past
    rw [hsame, hkept]
    exact ⟨hp.count, hp.count_le, hp.count, le_rfl, hp.rows, hp.fits, hp.noZero⟩
  obtain ⟨kept, hsub, hkept, hlt, hrows, hcount, hcurrent⟩ := past_push h hnil
  have hlen : (kept ++ [e.text]).length = kept.length + 1 := by simp
  rw [hkept]
  refine ⟨hcount.trans hlen.symm, by omega, hcurrent.trans hlen.symm, le_rfl, hrows,
    forall_mem_append.mpr ⟨fun t ht => h.past.fits t (hsub t ht), ?_⟩,
    forall_mem_append.mpr ⟨fun t ht => h.past.noZero t (hsub t ht), ?_⟩⟩
  · exact forall_mem_singleton.mpr h.line.fits
  exact forall_mem_singleton.mpr h.line.noZero

lemma stat_endOfLine (s : FinshShell) : (endOfLine s).stat = s.stat := by
  show (shellPushHistory s).stat = s.stat
  unfold shellPushHistory
  split
  · split <;> rfl
  rfl

lemma shows_enter (h : Shows s e) : Shows (endOfLine s) (e.key .enter) := by
  have hpast := past_remember h
  refine ⟨⟨?_, padded_blit (padded_nil _), rfl, rfl, le_rfl, ?_, ?_⟩, hpast.congr rfl rfl rfl⟩
  · exact (stat_endOfLine s).trans h.line.stat
  · show 0 < finshCmdSize - 1
    decide
  intro c hc
  exact absurd hc (by simp [Editor.key])

end

/-! ## Reads -/

section

variable {complete : (Nat → UInt8) → Nat → UInt8} {s : FinshShell} {p : Point}

lemma step_some (hp : p ≠ .peek) (ch : UInt8) (msh : Bool) : step complete ⟨s, p⟩ ⟨some ch, msh⟩ =
      (handleByte complete msh s ch).map fun a => ⟨a.shell, a.point⟩ := by
  cases p with
  | wait => rfl
  | loop => rfl
  | peek => exact absurd rfl hp

lemma step_none (hp : p ≠ .peek) (msh : Bool) :
    step complete ⟨s, p⟩ ⟨none, msh⟩ = some ⟨s, .wait⟩ := by
  cases p with
  | wait => rfl
  | loop => rfl
  | peek => exact absurd rfl hp

lemma step_peek (next : Option UInt8) (msh : Bool)
    (hnext : afterReturn next = cr ∨ afterReturn next = lf) :
    step complete ⟨s, .peek⟩ ⟨next, msh⟩ = some ⟨endOfLine s, .wait⟩ := by
  simp [step, onRead, finishByte, hnext]

variable (complete) in
lemma exec_idle (hp : p ≠ .peek) {n : Nat} {reads : List Read}
    (h : reads.map Read.byte = List.replicate n none) :
    ∃ p', p' ≠ .peek ∧ exec (step complete) ⟨s, p⟩ reads = some ⟨s, p'⟩ := by
  induction n generalizing p reads with
  | zero =>
    rw [map_eq_nil_iff.mp h]
    exact ⟨p, hp, rfl⟩
  | succ n ih =>
    obtain ⟨⟨_, msh⟩, rest, rfl, rfl, hrest⟩ := map_eq_cons_iff.mp h
    obtain ⟨p', hp', hexec⟩ := ih (p := .wait) (by decide) hrest
    refine ⟨p', hp', ?_⟩
    rw [exec_cons, step_none hp]
    exact hexec

lemma handleByte_printable (hs : s.stat = .normal) {c : UInt8} (hc : Printable c) (msh : Bool) :
    handleByte complete msh s c = some ⟨normalKey s c, .loop, none⟩ := by
  have hne : ∀ b : UInt8, ¬ Printable b → c ≠ b := fun b hb hcb => hb (hcb ▸ hc)
  have hend : ¬ (c = cr ∨ c = lf) := not_or.mpr ⟨hne cr (by decide), hne lf (by decide)⟩
  have hback : ¬ (c = 0x7f ∨ c = 0x08) := not_or.mpr ⟨hne 0x7f (by decide), hne 0x08 (by decide)⟩
  rw [handleByte, if_neg (hne esc (by decide)), hs]
  simp only [plainByte, finishByte]
  rw [if_neg (hne cr (by decide)), if_neg (hne tab (by decide)), if_neg hback, if_neg hend]

lemma handleByte_erase (hs : s.stat = .normal) {c : UInt8} (hc : c = 0x08 ∨ c = 0x7f)
    (msh : Bool) : handleByte complete msh s c = some ⟨backspaceKey s, .loop, none⟩ := by
  unfold handleByte
  rw [hs]
  rcases hc with rfl | rfl <;> rfl

lemma handleByte_lf (hs : s.stat = .normal) (msh : Bool) :
    handleByte complete msh s lf = some ⟨endOfLine s, .wait, executed msh s⟩ := by
  unfold handleByte
  rw [hs]
  rfl

lemma handleByte_cr (hs : s.stat = .normal) (msh : Bool) :
    handleByte complete msh s cr = some ⟨s, .peek, none⟩ := by
  unfold handleByte
  rw [hs]
  rfl

variable (complete) in
lemma shows_arrow {e : Editor} (h : Shows s e) (a : Arrow) (msh : Bool) :
    ∃ s', handleByte complete msh { s with stat := .funcKey } a.code = some ⟨s', .loop, none⟩ ∧
      Shows s' (e.key (.arrow a)) := by
  have hback : { s with stat := .normal } = s := by rw [← h.line.stat]
  have hfun : handleByte complete msh { s with stat := .funcKey } a.code =
      functionByte complete msh s a.code := by
    conv_rhs => rw [← hback]
    cases a <;> rfl
  rw [hfun]
  cases a with
  | up =>
    obtain ⟨s', hkey, hshows⟩ := shows_up h
    refine ⟨s', ?_, hshows⟩
    rw [functionByte, if_pos (by decide), hkey]
    rfl
  | down =>
    obtain ⟨s', hkey, hshows⟩ := shows_down h
    refine ⟨s', ?_, hshows⟩
    rw [functionByte, if_neg (by decide), if_pos (by decide), hkey]
    rfl
  | left => exact ⟨_, rfl, shows_left h⟩
  | right => exact ⟨_, rfl, shows_right h⟩

variable (complete) in
lemma exec_arrow {e : Editor} (h : Shows s e) (hp : p ≠ .peek) (a : Arrow) (m n : Nat)
    {reads : List Read}
    (hreads : reads.map Read.byte = [some esc] ++ List.replicate m none ++ [some 0x5b] ++
      List.replicate n none ++ [some a.code]) :
    ∃ s', exec (step complete) ⟨s, p⟩ reads = some ⟨s', .loop⟩ ∧ Shows s' (e.key (.arrow a)) := by
  obtain ⟨before, last, rfl, hbefore, hlast⟩ := map_eq_append_iff.mp hreads
  obtain ⟨before, second, rfl, hbefore, hsecond⟩ := map_eq_append_iff.mp hbefore
  obtain ⟨before, bracket, rfl, hbefore, hbracket⟩ := map_eq_append_iff.mp hbefore
  obtain ⟨escape, first, rfl, hescape, hfirst⟩ := map_eq_append_iff.mp hbefore
  obtain ⟨⟨_, m₀⟩, rfl, rfl⟩ := map_eq_singleton_iff.mp hescape
  obtain ⟨⟨_, m₁⟩, rfl, rfl⟩ := map_eq_singleton_iff.mp hbracket
  obtain ⟨⟨_, m₂⟩, rfl, rfl⟩ := map_eq_singleton_iff.mp hlast
  obtain ⟨s', hkey, hshows⟩ := shows_arrow complete h a m₂
  obtain ⟨p₁, hp₁, hexec₁⟩ := exec_idle complete (s := { s with stat := .specKey })
    (p := .loop) (by decide) hfirst
  obtain ⟨p₂, hp₂, hexec₂⟩ := exec_idle complete (s := { s with stat := .funcKey })
    (p := .loop) (by decide) hsecond
  have hesc : step complete ⟨s, p⟩ ⟨some esc, m₀⟩ = some ⟨{ s with stat := .specKey }, .loop⟩ := by
    rw [step_some hp]
    rfl
  have hopen : step complete ⟨{ s with stat := .specKey }, p₁⟩ ⟨some 0x5b, m₁⟩ =
      some ⟨{ s with stat := .funcKey }, .loop⟩ := by
    rw [step_some hp₁]
    rfl
  have hcode : step complete ⟨{ s with stat := .funcKey }, p₂⟩ ⟨some a.code, m₂⟩ =
      some ⟨s', .loop⟩ := by
    rw [step_some hp₂, hkey]
    rfl
  refine ⟨s', ?_, hshows⟩
  simp only [exec_append, exec_cons, exec_nil, hesc, hexec₁, hopen, hexec₂, hcode, Option.bind_some]

variable (complete) in
lemma exec_key {e : Editor} (h : Shows s e) (hp : p ≠ .peek) {k : Key} {reads : List Read}
    (hk : Types k (reads.map Read.byte)) (hfit : (e.key k).text.length < finshCmdSize - 1) :
    ∃ s' p', p' ≠ .peek ∧ exec (step complete) ⟨s, p⟩ reads = some ⟨s', p'⟩ ∧
      Shows s' (e.key k) := by
  have hs := h.line.stat
  generalize hbytes : reads.map Read.byte = bytes at hk
  cases hk with
  | char hc =>
    obtain ⟨⟨_, msh⟩, rfl, rfl⟩ := map_eq_singleton_iff.mp hbytes
    refine ⟨_, .loop, by decide, ?_, shows_char h hc.ne_zero hfit⟩
    rw [exec_cons, step_some hp, handleByte_printable hs hc]
    rfl
  | backspace =>
    obtain ⟨⟨_, msh⟩, rfl, rfl⟩ := map_eq_singleton_iff.mp hbytes
    refine ⟨_, .loop, by decide, ?_, shows_backspace h⟩
    rw [exec_cons, step_some hp, handleByte_erase hs (.inl rfl)]
    rfl
  | delete =>
    obtain ⟨⟨_, msh⟩, rfl, rfl⟩ := map_eq_singleton_iff.mp hbytes
    refine ⟨_, .loop, by decide, ?_, shows_backspace h⟩
    rw [exec_cons, step_some hp, handleByte_erase hs (.inr rfl)]
    rfl
  | arrow a m n =>
    obtain ⟨s', hexec, hshows⟩ := exec_arrow complete h hp a m n hbytes
    exact ⟨s', .loop, by decide, hexec, hshows⟩
  | lineFeed =>
    obtain ⟨⟨_, msh⟩, rfl, rfl⟩ := map_eq_singleton_iff.mp hbytes
    refine ⟨_, .wait, by decide, ?_, shows_enter h⟩
    rw [exec_cons, step_some hp, handleByte_lf hs]
    rfl
  | carriageReturn hnext =>
    obtain ⟨⟨_, msh⟩, rest, rfl, rfl, hrest⟩ := map_eq_cons_iff.mp hbytes
    obtain ⟨⟨_, msh'⟩, rfl, rfl⟩ := map_eq_singleton_iff.mp hrest
    refine ⟨_, .wait, by decide, ?_, shows_enter h⟩
    rw [exec_cons, step_some hp, handleByte_cr hs]
    show exec (step complete) ⟨s, .peek⟩ _ = _
    rw [exec_cons, step_peek _ _ hnext]
    rfl
  | @returned c hz hcr hlf =>
    obtain ⟨⟨_, msh⟩, rest, rfl, rfl, hrest⟩ := map_eq_cons_iff.mp hbytes
    obtain ⟨⟨_, msh'⟩, rfl, rfl⟩ := map_eq_singleton_iff.mp hrest
    have hend : ¬ (c = cr ∨ c = lf) := not_or.mpr ⟨hcr, hlf⟩
    refine ⟨_, .loop, by decide, ?_, shows_char h hz hfit⟩
    rw [exec_cons, step_some hp, handleByte_cr hs]
    simp [exec_cons, step, onRead, afterReturn, finishByte, hz, hend]

end

lemma exec_keys {complete : (Nat → UInt8) → Nat → UInt8} {ks : List Key}
    {bytes : List (Option UInt8)} (hfeed : Feeds ks bytes) {reads : List Read}
    (hbytes : reads.map Read.byte = bytes) {s : FinshShell} {p : Point} {e : Editor} (h : Shows s e)
    (hp : p ≠ .peek) (hfit : ∀ ks', ks' <+: ks → (e.keys ks').text.length < finshCmdSize - 1) :
    ∃ s', exec (step complete) ⟨s, p⟩ reads = some s' ∧ Shows s'.shell (e.keys ks) := by
  induction hfeed generalizing reads s p e with
  | nil =>
    rw [map_eq_nil_iff.mp hbytes]
    exact ⟨⟨s, p⟩, rfl, h⟩
  | idle _ ih =>
    obtain ⟨⟨_, msh⟩, rest, rfl, rfl, hrest⟩ := map_eq_cons_iff.mp hbytes
    obtain ⟨s', hexec, hshows⟩ := ih hrest h (p := .wait) (by decide) hfit
    refine ⟨s', ?_, hshows⟩
    rw [exec_cons, step_none hp]
    exact hexec
  | @key k ks _ _ hk _ ih =>
    obtain ⟨first, rest, rfl, rfl, hrest⟩ := map_eq_append_iff.mp hbytes
    have hfirst : (e.key k).text.length < finshCmdSize - 1 :=
      hfit [k] (cons_prefix_cons.mpr ⟨rfl, nil_prefix⟩)
    obtain ⟨s1, p₁, hp₁, hexec₁, hshows1⟩ := exec_key complete h hp hk hfirst
    obtain ⟨s', hexec, hshows⟩ := ih hrest hshows1 hp₁ fun ks' hpre =>
      hfit (k :: ks') (cons_prefix_cons.mpr ⟨rfl, hpre⟩)
    refine ⟨s', ?_, hshows⟩
    rw [exec_append, hexec₁]
    exact hexec

/-- **The shell refines the editor.** Whatever keys are pressed, in whatever reads their bytes come
and whether a line is executed by `msh` or by `finsh`: as long as the text stays shorter than the
line, the thread reaches a state that shows the editor after the keys. -/
theorem shell_refines_editor (complete : (Nat → UInt8) → Nat → UInt8) (ks : List Key)
    (reads : List Read) (hfeed : Feeds ks (reads.map Read.byte))
    (hfit : ∀ ks', ks' <+: ks → (Editor.empty.keys ks').text.length < finshCmdSize - 1) :
    ∃ s, exec (step complete) ⟨.zeroed, .wait⟩ reads = some s ∧
      Shows s.shell (Editor.empty.keys ks) :=
  exec_keys hfeed rfl shows_zeroed (by decide) hfit

def lsKeys : List Key :=
  [.char 0x6c, .char 0x73, .enter, .char 0x70, .arrow .up, .arrow .left, .backspace]

def lsReads : List Read :=
  [some 0x6c, some 0x73, some cr, some lf, none, some 0x70, some esc, none, some 0x5b, some 0x41,
    some esc, some 0x5b, some 0x44, some 0x08].map fun b => ⟨b, true⟩

lemma feeds_lsKeys : Feeds lsKeys (lsReads.map Read.byte) :=
  .key (.char (by decide)) <| .key (.char (by decide)) <|
    .key (.carriageReturn (.inr (by decide))) <| .idle <| .key (.char (by decide)) <|
    .key (.arrow .up 1 0) <| .key (.arrow .left 0 0) <| .key .backspace .nil

lemma lsKeys_fit :
    ∀ ks', ks' <+: lsKeys → (Editor.empty.keys ks').text.length < finshCmdSize - 1 := by
  have h : ∀ ks' ∈ lsKeys.inits, (Editor.empty.keys ks').text.length < finshCmdSize - 1 := by decide
  exact fun ks' hpre => h ks' ((mem_inits _ _).mpr hpre)

theorem shell_refines_editor_ls : Feeds lsKeys (lsReads.map Read.byte) ∧
    (∀ ks', ks' <+: lsKeys → (Editor.empty.keys ks').text.length < finshCmdSize - 1) ∧
    Editor.empty.keys lsKeys = ⟨[0x73], 0, [[0x6c, 0x73]], 0⟩ ∧
    ∃ s, exec (step id) ⟨.zeroed, .wait⟩ lsReads = some s ∧
      Shows s.shell (Editor.empty.keys lsKeys) :=
  ⟨feeds_lsKeys, lsKeys_fit, by decide,
    shell_refines_editor id lsKeys lsReads feeds_lsKeys lsKeys_fit⟩

end NbIot.Shell
