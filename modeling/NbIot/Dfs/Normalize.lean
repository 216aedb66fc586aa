import NbIot.Basic.CString
import NbIot.Basic.Paths

/-! # `dfs_normalize_path`

`dfs_normalize_path` of `dfs.c` works in one buffer, with a cursor `src` that reads and a cursor
`dst` that writes behind it; the buffer is a list of bytes with the terminating zero at its end, and
an access outside it is a fault.

Since `dst` is never in front of `src`, a turn of the loop is a turn on two texts (`nextTurn`,
`turn_spec`), and the loop is the resolution of the names, with the first separator as one more name
below all others: the first `..` that climbs above the root takes this separator away, and is not
noticed; only the next one is.
-/

namespace NbIot.Dfs

open CString Paths Alphabet List

/-- `'/'` and `'.'`. -/
def pathChars : Alphabet UInt8 where
  sep := '/'.toUInt8
  dot := '.'.toUInt8
  ne := by decide

/-! ## The function -/

inductive Fault where
  | outOfBounds
  | nullPointer
  | outOfFuel
  deriving DecidableEq

def read (buf : List UInt8) (i : Nat) : Except Fault UInt8 :=
  match buf[i]? with
  | some c => .ok c
  | none => .error .outOfBounds

def write (buf : List UInt8) (i : Nat) (c : UInt8) : Except Fault (List UInt8) :=
  if i < buf.length then .ok (buf.set i c) else .error .outOfBounds

/-- The two loops that move `src` behind the separators. -/
def skipSep (buf : List UInt8) : Nat → Nat → Except Fault Nat
  | 0, _ => .error .outOfFuel
  | fuel + 1, src => do
    let c ← read buf src
    if c = pathChars.sep then skipSep buf fuel (src + 1) else pure src

/-- `while ((c = *src++) != '\0' && c != '/') *dst ++ = c;`, with the last `c`. -/
def copyName : Nat → List UInt8 → Nat → Nat → Except Fault (List UInt8 × Nat × Nat × UInt8)
  | 0, _, _, _ => .error .outOfFuel
  | fuel + 1, buf, src, dst => do
    let c ← read buf src
    if c ≠ 0 ∧ c ≠ pathChars.sep then
      copyName fuel (← write buf dst c) (src + 1) (dst + 1)
    else pure (buf, src + 1, dst, c)

/-- `while (dst0 < dst && dst[-1] != '/') dst --;`. -/
def backUp (buf : List UInt8) : Nat → Except Fault Nat
  | 0 => pure 0
  | dst + 1 => do
    let c ← read buf dst
    if c ≠ pathChars.sep then backUp buf dst else pure (dst + 1)

/-- How a turn of the loop ends: with another turn, with the return of `RT_NULL`, or with the
`break`. -/
inductive Turn (σ τ : Type) where
  | again (s : σ)
  | null
  | stop (t : τ)

/-- The buffer, `src` and `dst`. -/
structure Cursors where
  buf : List UInt8
  src : Nat
  dst : Nat

/-- What is copied up to the next separator, which is copied too, and those behind it are
erased. -/
def copyUp (s : Cursors) (src : Nat) : Except Fault (Turn Cursors (List UInt8 × Nat)) := do
  let (buf, src, dst, c) ← copyName (s.buf.length + 1) s.buf src s.dst
  if c = pathChars.sep then
    let buf ← write buf dst pathChars.sep
    let src ← skipSep buf (buf.length + 1) src
    pure (.again ⟨buf, src, dst + 1⟩)
  else pure (.stop (buf, dst))

/-- From the label `up_one` on. -/
def upOne (s : Cursors) (src : Nat) : Except Fault (Turn Cursors (List UInt8 × Nat)) :=
  if s.dst = 0 then pure .null
  else do
    let dst ← backUp s.buf (s.dst - 1)
    pure (.again ⟨s.buf, src, dst⟩)

/-- One turn of `while (1)`. -/
def turn (s : Cursors) : Except Fault (Turn Cursors (List UInt8 × Nat)) := do
  let c ← read s.buf s.src
  if c = pathChars.dot then
    let c₁ ← read s.buf (s.src + 1)
    if c₁ = 0 then copyUp s (s.src + 1)
    else if c₁ = pathChars.sep then
      let src ← skipSep s.buf (s.buf.length + 1) (s.src + 2)
      pure (.again { s with src := src })
    else if c₁ = pathChars.dot then
      let c₂ ← read s.buf (s.src + 2)
      if c₂ = 0 then upOne s (s.src + 2)
      else if c₂ = pathChars.sep then
        let src ← skipSep s.buf (s.buf.length + 1) (s.src + 3)
        upOne s src
      else copyUp s s.src
    else copyUp s s.src
  else copyUp s s.src

/-- The loop, up to its `break` or to `RT_NULL`. -/
def loop : Nat → Cursors → Except Fault (Option (List UInt8 × Nat))
  | 0, _ => .error .outOfFuel
  | fuel + 1, s => do
    match ← turn s with
    | .again s => loop fuel s
    | .null => pure none
    | .stop t => pure (some t)

/-- What comes behind the loop. With `dst` at the beginning of the string, `*dst` is the byte in
front of it. -/
def finish (buf : List UInt8) (dst : Nat) : Except Fault (List UInt8) := do
  let buf ← write buf dst 0
  if dst = 0 then .error .outOfBounds
  else if dst - 1 ≠ 0 then
    if (← read buf (dst - 1)) = pathChars.sep then write buf (dst - 1) 0 else pure buf
  else pure buf

/-- The string that `dfs_normalize_path` works on. -/
def fullpath (directory filename : List UInt8) : List UInt8 :=
  if filename.head? = some pathChars.sep then filename
  else directory ++ pathChars.sep :: filename

def normalize (path : List UInt8) : Except Fault (Option (List UInt8)) := do
  match ← loop (path.length + 2) ⟨path ++ [0], 0, 0⟩ with
  | none => pure none
  | some (buf, dst) => pure (some ((← finish buf dst).takeWhile (· ≠ 0)))

/-- `dfs_normalize_path` without a working directory; `room` says that the allocation succeeds. -/
def dfsNormalizePath (room : Bool) (directory : Option (List UInt8)) (filename : List UInt8) :
    Except Fault (Option (List UInt8)) :=
  if directory = none ∧ filename.head? ≠ some pathChars.sep then .ok none
  else if room then normalize (fullpath (directory.getD []) filename)
  else .ok none

/-! ## A turn on two texts -/

def dropName (text : List UInt8) : List UInt8 :=
  text.dropLast.rdropWhile (· ≠ pathChars.sep)

/-- A turn, with the text that has been written and the text that is still to be read. -/
def nextTurn (text rest : List UInt8) : Turn (List UInt8 × List UInt8) (List UInt8) :=
  let name := rest.takeWhile (· ≠ pathChars.sep)
  let tail := rest.dropWhile (· ≠ pathChars.sep)
  let rest' := tail.dropWhile (· = pathChars.sep)
  if name = [pathChars.dot] then
    if tail = [] then .stop text else .again (text, rest')
  else if name = [pathChars.dot, pathChars.dot] then
    if text = [] then .null else .again (dropName text, rest')
  else if tail = [] then .stop (text ++ name)
  else .again (text ++ name ++ [pathChars.sep], rest')

/-- The text in front of `dst`, and the text from `src` on. -/
structure Holds (s : Cursors) (text rest : List UInt8) : Prop where
  text : s.buf.take s.dst = text
  rest : s.buf.drop s.src = rest
  le : s.dst ≤ s.src
  src_le : s.src ≤ s.buf.length

variable {s : Cursors} {ns : List (List UInt8)}

section

variable {text rest name : List UInt8} {c : UInt8} {tail : List UInt8}

lemma Holds.length_text (h : Holds s text rest) : text.length = s.dst := by
  have hle := h.le
  have hsrc := h.src_le
  rw [← h.text, length_take]
  omega

lemma Holds.length_rest (h : Holds s text rest) : rest.length = s.buf.length - s.src := by
  rw [← h.rest, length_drop]

lemma read_bind {α : Type} {buf : List UInt8} {i : Nat} (h : buf[i]? = some c)
    (f : UInt8 → Except Fault α) : (read buf i >>= f) = f c := by
  rw [read, h]
  rfl

lemma Holds.getElem? (h : Holds s text rest) (i : Nat) : s.buf[s.src + i]? = rest[i]? := by
  rw [← h.rest, getElem?_drop]

lemma Holds.next (h : Holds s text (c :: rest)) : Holds { s with src := s.src + 1 } text rest := by
  have hlen := h.length_rest
  have hle := h.le
  refine ⟨h.text, ?_, by simp; omega, by simp at hlen ⊢; omega⟩
  rw [← tail_drop, h.rest, tail_cons]

lemma Holds.skip (name : List UInt8) (h : Holds s text (name ++ rest)) :
    Holds { s with src := s.src + name.length } text rest := by
  induction name generalizing s with
  | nil => exact h
  | cons c name ih =>
    have h' := ih (Holds.next h)
    rw [show s.src + (c :: name).length = s.src + 1 + name.length by simp; omega]
    exact h'

lemma Holds.put (h : Holds s text rest) (hlt : s.dst < s.src) (c : UInt8) :
    write s.buf s.dst c = .ok (s.buf.set s.dst c) ∧
      Holds ⟨s.buf.set s.dst c, s.src, s.dst + 1⟩ (text ++ [c]) rest := by
  have hsrc := h.src_le
  have hdst : s.dst < s.buf.length := by omega
  refine ⟨if_pos hdst, ?_, ?_, hlt, by simpa using hsrc⟩
  · rw [take_succ_eq_append_getElem (by simpa using hdst), take_set_of_le (le_rfl),
      h.text, getElem_set_self]
  rw [drop_set_of_lt hlt, h.rest]

lemma skipSep_spec (h : Holds s text (rest ++ [0])) (fuel : Nat) (hfuel : rest.length < fuel) :
    ∃ src, skipSep s.buf fuel s.src = .ok src ∧
      Holds { s with src := src } text (rest.dropWhile (· = pathChars.sep) ++ [0]) := by
  induction rest generalizing s fuel with
  | nil =>
    obtain ⟨fuel, rfl⟩ : ∃ n, fuel = n + 1 := ⟨fuel - 1, by omega⟩
    refine ⟨s.src, ?_, h⟩
    rw [skipSep, read_bind (by exact h.getElem? 0)]
    rfl
  | cons c rest ih =>
    obtain ⟨fuel, rfl⟩ : ∃ n, fuel = n + 1 := ⟨fuel - 1, by omega⟩
    rw [skipSep, read_bind (by exact h.getElem? 0)]
    by_cases hc : c = pathChars.sep
    · rw [if_pos hc, dropWhile_cons_of_pos (by simpa using hc)]
      exact ih (Holds.next h) fuel (by simpa using hfuel)
    rw [if_neg hc, dropWhile_cons_of_neg (by simpa using hc)]
    exact ⟨s.src, rfl, h⟩

lemma copyName_spec (h : Holds s text (name ++ c :: rest)) (hname : NoZero name)
    (hsep : pathChars.sep ∉ name) (hc : c = 0 ∨ c = pathChars.sep) {fuel : Nat}
    (hfuel : name.length < fuel) :
    ∃ buf src dst, copyName fuel s.buf s.src s.dst = .ok (buf, src, dst, c) ∧ dst < src ∧
      buf.length = s.buf.length ∧ Holds ⟨buf, src, dst⟩ (text ++ name) rest := by
  induction name generalizing s fuel text with
  | nil =>
    obtain ⟨fuel, rfl⟩ : ∃ n, fuel = n + 1 := ⟨fuel - 1, by omega⟩
    refine ⟨s.buf, s.src + 1, s.dst, ?_, by have := h.le; omega, rfl, ?_⟩
    · rw [copyName, read_bind (by exact h.getElem? 0), if_neg (by tauto)]
      rfl
    rw [append_nil]
    exact h.next
  | cons d name ih =>
    obtain ⟨fuel, rfl⟩ : ∃ n, fuel = n + 1 := ⟨fuel - 1, by omega⟩
    have hd : d ≠ 0 ∧ d ≠ pathChars.sep := by
      refine ⟨hname d mem_cons_self, ?_⟩
      rintro rfl
      exact hsep mem_cons_self
    obtain ⟨hwrite, hput⟩ := (Holds.next h).put (Nat.lt_succ_of_le h.le) d
    obtain ⟨buf, src, dst, hcopy, hlt, hlen, hholds⟩ := ih hput
      (fun e he => hname e (mem_cons_of_mem d he))
      (fun he => hsep (mem_cons_of_mem d he)) (by simpa using hfuel)
    refine ⟨buf, src, dst, ?_, hlt, by simpa using hlen, ?_⟩
    · rw [copyName, read_bind (by exact h.getElem? 0), if_pos hd, hwrite]
      exact hcopy
    simpa using hholds

lemma backUp_spec {buf : List UInt8} {dst : Nat} (h : dst ≤ buf.length) :
    ∃ d, d ≤ dst ∧ backUp buf dst = .ok d ∧
      buf.take d = (buf.take dst).rdropWhile (· ≠ pathChars.sep) := by
  induction dst with
  | zero => exact ⟨0, Nat.le_refl 0, rfl, by simp⟩
  | succ dst ih =>
    have htake := take_succ_eq_append_getElem h
    rw [backUp, read_bind (getElem?_eq_getElem h), htake]
    by_cases hc : buf[dst] ≠ pathChars.sep
    · obtain ⟨d, hd, hback, heq⟩ := ih (by omega)
      rw [if_pos hc, rdropWhile_concat_pos _ _ _ (by simpa using hc)]
      exact ⟨d, by omega, hback, heq⟩
    rw [if_neg hc, rdropWhile_concat_neg _ _ _ (by simpa using hc)]
    exact ⟨dst + 1, le_rfl, rfl, htake⟩

lemma head_of_dropWhile
    (h : rest.dropWhile (· ≠ pathChars.sep) = c :: tail) : c = pathChars.sep := by
  have hhead := head?_dropWhile_not (fun c => decide (c ≠ pathChars.sep)) rest
  rw [h] at hhead
  simpa using hhead

lemma head?_skipped (rest : List UInt8) :
    (rest.dropWhile (· = pathChars.sep)).head? ≠ some pathChars.sep := by
  intro heq
  have hnot := head?_dropWhile_not (fun c => decide (c = pathChars.sep)) rest
  rw [heq] at hnot
  simp at hnot

def Matches (r : Except Fault (Turn Cursors (List UInt8 × Nat))) :
    Turn (List UInt8 × List UInt8) (List UInt8) → Prop
  | .again (text, rest) => ∃ s, r = .ok (.again s) ∧ Holds s text (rest ++ [0])
  | .null => r = .ok .null
  | .stop text => ∃ buf dst, r = .ok (.stop (buf, dst)) ∧ buf.take dst = text ∧ dst < buf.length

lemma copyUp_spec (h : Holds s text (rest ++ [0])) (hrest : NoZero rest) : Matches (copyUp s s.src)
      (if rest.dropWhile (· ≠ pathChars.sep) = [] then
        .stop (text ++ rest.takeWhile (· ≠ pathChars.sep))
      else .again (text ++ rest.takeWhile (· ≠ pathChars.sep) ++ [pathChars.sep],
        (rest.dropWhile (· ≠ pathChars.sep)).dropWhile (· = pathChars.sep))) := by
  have hcut := takeWhile_append_dropWhile (p := (· ≠ pathChars.sep)) (l := rest)
  have hsep : pathChars.sep ∉ rest.takeWhile (· ≠ pathChars.sep) := fun hm => by
    simpa using mem_takeWhile_imp hm
  have hzero : NoZero (rest.takeWhile (· ≠ pathChars.sep)) :=
    fun c hc => hrest c (takeWhile_subset _ hc)
  have hlen : (rest.takeWhile (· ≠ pathChars.sep)).length < s.buf.length + 1 := by
    have h1 := h.length_rest
    have h2 := (takeWhile_sublist (l := rest) (· ≠ pathChars.sep)).length_le
    simp at h1
    omega
  revert hcut hsep hzero hlen
  generalize rest.takeWhile (· ≠ pathChars.sep) = name
  intro hcut hsep hzero hlen
  cases htail : rest.dropWhile (· ≠ pathChars.sep) with
  | nil =>
    rw [htail, append_nil] at hcut
    subst hcut
    obtain ⟨buf, src, dst, hcopy, hlt, -, hholds⟩ := copyName_spec h hzero hsep (.inl rfl) hlen
    refine ⟨buf, dst, ?_, hholds.text, lt_of_lt_of_le hlt hholds.src_le⟩
    rw [copyUp, hcopy]
    rfl
  | cons c tail =>
    obtain rfl := head_of_dropWhile htail
    rw [htail] at hcut
    subst hcut
    rw [append_assoc] at h
    obtain ⟨buf, src, dst, hcopy, hlt, -, hholds⟩ := copyName_spec h hzero hsep (.inr rfl) hlen
    obtain ⟨hwrite, hput⟩ := hholds.put hlt pathChars.sep
    obtain ⟨src', hskip, hholds'⟩ := skipSep_spec hput (buf.length + 1) (by
      have := hput.length_rest
      simp at this
      omega)
    have hset : (buf.set dst pathChars.sep).length = buf.length := length_set
    rw [copyUp, hcopy]
    refine ⟨⟨buf.set dst pathChars.sep, src', dst + 1⟩, ?_, ?_⟩
    · show (write buf dst pathChars.sep >>= fun b => skipSep b (b.length + 1) src >>= _) = _
      rw [hwrite]
      show (skipSep _ (_ + 1) src >>= _) = _
      rw [hset, hskip]
      rfl
    exact hholds'

lemma upOne_spec {src : Nat} (h : Holds { s with src := src } text (rest ++ [0])) :
    Matches (upOne s src) (if text = [] then .null else .again (dropName text, rest)) := by
  have hlen : text.length = s.dst := h.length_text
  unfold upOne
  by_cases htext : text = []
  · subst htext
    rw [if_pos (by exact hlen.symm)]
    rfl
  have hpos : 0 < text.length := length_pos_of_ne_nil htext
  have hle : s.dst ≤ src := h.le
  have hsrc : src ≤ s.buf.length := h.src_le
  obtain ⟨d, hd, hback, htake⟩ := backUp_spec (show s.dst - 1 ≤ s.buf.length by omega)
  rw [if_neg htext, if_neg (by omega), hback]
  refine ⟨⟨s.buf, src, d⟩, rfl, ?_, h.rest, ?_, hsrc⟩
  · have hdrop : s.buf.take (s.dst - 1) = text.dropLast := by
      rw [dropLast_eq_take, hlen, ← h.text, take_take]
      show _ = s.buf.take (min (s.dst - 1) s.dst)
      rw [min_eq_left (by omega)]
    rw [dropName, ← hdrop]
    exact htake
  show d ≤ src
  omega

lemma here_spec (h : Holds s text (pathChars.dot :: pathChars.sep :: rest ++ [0])) :
    Matches (turn s) (.again (text, rest.dropWhile (· = pathChars.sep))) := by
  have hnext : Holds { s with src := s.src + 2 } text (rest ++ [0]) :=
    Holds.skip [pathChars.dot, pathChars.sep] h
  obtain ⟨src, hskip, hholds⟩ := skipSep_spec hnext (s.buf.length + 1) (by
    have := hnext.length_rest
    simp at this
    omega)
  refine ⟨{ s with src := src }, ?_, hholds⟩
  rw [turn, read_bind (i := s.src) (h.getElem? 0), read_bind (h.getElem? 1), hskip]
  rfl

lemma up_spec (htail : tail.head? = none ∨ tail.head? = some pathChars.sep)
    (h : Holds s text (pathChars.dot :: pathChars.dot :: tail ++ [0])) :
    Matches (turn s)
      (if text = [] then .null
        else .again (dropName text, tail.dropWhile (· = pathChars.sep))) := by
  rw [turn, read_bind (i := s.src) (h.getElem? 0), read_bind (h.getElem? 1)]
  cases tail with
  | nil =>
    rw [read_bind (h.getElem? 2)]
    exact upOne_spec (Holds.skip [pathChars.dot, pathChars.dot] h)
  | cons c rest =>
    obtain rfl : c = pathChars.sep := by simpa using htail
    have hnext : Holds { s with src := s.src + 3 } text (rest ++ [0]) :=
      Holds.skip [pathChars.dot, pathChars.dot, pathChars.sep] h
    obtain ⟨src, hskip, hholds⟩ := skipSep_spec hnext (s.buf.length + 1) (by
      have := hnext.length_rest
      simp at this
      omega)
    rw [read_bind (h.getElem? 2), hskip]
    exact upOne_spec hholds

lemma turn_spec (h : Holds s text (rest ++ [0])) (hrest : NoZero rest) :
    Matches (turn s) (nextTurn text rest) := by
  have hread : ∀ i c, (rest ++ [0])[i]? = some c → s.buf[s.src + i]? = some c :=
    fun i c hi => (h.getElem? i).trans hi
  -- a name that is not special is copied
  have plain : rest.takeWhile (· ≠ pathChars.sep) ≠ [pathChars.dot] →
      rest.takeWhile (· ≠ pathChars.sep) ≠ [pathChars.dot, pathChars.dot] →
      turn s = copyUp s s.src → Matches (turn s) (nextTurn text rest) := by
    intro h1 h2 heq
    rw [heq, nextTurn, if_neg h1, if_neg h2]
    exact copyUp_spec h hrest
  rcases rest with _ | ⟨c, r⟩
  · refine plain (by simp) (by simp) ?_
    rw [turn, read_bind (i := s.src) (hread 0 0 rfl), if_neg (by decide)]
  have hc : s.buf[s.src]? = some c := hread 0 c rfl
  by_cases hdot : c ≠ pathChars.dot
  · refine plain ?_ ?_ (by rw [turn, read_bind hc, if_neg hdot])
    all_goals
      by_cases hsep : c = pathChars.sep
      · simp [hsep]
      simp [hsep, hdot]
  obtain rfl : c = pathChars.dot := not_not.mp hdot
  rcases r with _ | ⟨c1, r⟩
  · -- `.` at the end
    have hnil : Holds { s with src := s.src + 1 } text ([] ++ [0]) := Holds.next h
    have hend := copyUp_spec hnil (by simp [NoZero])
    rw [turn, read_bind hc, read_bind (hread 1 0 rfl)]
    simp only [takeWhile_nil, append_nil] at hend
    exact hend
  have hc1 := hread 1 c1 rfl
  by_cases hsep1 : c1 = pathChars.sep
  · subst hsep1
    rw [nextTurn]
    simpa [pathChars.ne] using here_spec h
  by_cases hdot1 : c1 ≠ pathChars.dot
  · refine plain (by simp [pathChars.ne, hsep1]) (by simp [pathChars.ne, hsep1, hdot1]) ?_
    rw [turn, read_bind hc, if_pos rfl, read_bind hc1, if_neg (hrest c1 (by simp)), if_neg hsep1,
      if_neg hdot1]
  obtain rfl : c1 = pathChars.dot := not_not.mp hdot1
  by_cases htail : r.head? = none ∨ r.head? = some pathChars.sep
  · have hname : r.takeWhile (· ≠ pathChars.sep) = [] ∧ r.dropWhile (· ≠ pathChars.sep) = r := by
      rcases r with _ | ⟨c2, r⟩
      · simp
      have : c2 = pathChars.sep := by simpa using htail
      simp [this]
    rw [nextTurn, if_neg (by simp [pathChars.ne]), if_pos (by simpa [pathChars.ne] using hname.1)]
    have hup := up_spec htail h
    rw [dropWhile_cons_of_pos (by simp [pathChars.ne]),
      dropWhile_cons_of_pos (by simp [pathChars.ne]), hname.2]
    exact hup
  rcases r with _ | ⟨c2, r⟩
  · exact absurd (.inl rfl) htail
  have hsep2 : c2 ≠ pathChars.sep := by simpa using htail
  refine plain (by simp [pathChars.ne]) (by simp [pathChars.ne, hsep2]) ?_
  rw [turn, read_bind hc, if_pos rfl, read_bind hc1, if_neg (by decide), if_neg (by decide),
    if_pos rfl, read_bind (hread 2 c2 rfl), if_neg (hrest c2 (by simp)), if_neg hsep2]

end

/-! ## The loop on names -/

def segments (ns : List (List UInt8)) : List UInt8 := ns.flatMap (· ++ [pathChars.sep])

section

variable {n : List UInt8}

lemma segments_append (ns : List (List UInt8)) (n : List UInt8) :
    segments (ns ++ [n]) = segments ns ++ n ++ [pathChars.sep] := by
  simp [segments]

lemma segments_eq_nil : segments ns = [] ↔ ns = [] := by
  cases ns with
  | nil => simp [segments]
  | cons n ns => simp [segments]

lemma rdropWhile_segments (ns : List (List UInt8)) :
    (segments ns).rdropWhile (· ≠ pathChars.sep) = segments ns := by
  rcases eq_nil_or_concat ns with rfl | ⟨ms, m, rfl⟩
  · rfl
  rw [concat_eq_append, segments_append, rdropWhile_concat_neg _ _ _ (by simp)]

lemma dropName_segments (hn : pathChars.sep ∉ n) (ns : List (List UInt8)) :
    dropName (segments (ns ++ [n])) = segments ns := by
  rw [dropName, segments_append, dropLast_concat]
  conv_rhs => rw [← rdropWhile_segments ns]
  simp only [List.rdropWhile, reverse_append]
  rw [dropWhile_append_of_pos]
  intro c hc
  simp only [decide_not, Bool.not_eq_eq_eq_not, Bool.not_true, decide_eq_false_iff_not]
  rintro rfl
  exact hn (mem_reverse.mp hc)

end

def Leaves (text : List UInt8) (ns : List (List UInt8)) : Prop :=
  text = segments ns ∨ (text ++ [pathChars.sep] = segments ns ∧
    ∃ c ∈ text.getLast?, c ≠ pathChars.sep)

/-- The first name of a text and what is behind the separators that follow it; `last` says that
there is no separator. -/
structure Cut (rest name rest' : List UInt8) (last : Prop) : Prop where
  ne_nil : name ≠ []
  noSep : pathChars.sep ∉ name
  noZero : NoZero name
  names : pathChars.names rest = name :: pathChars.names rest'
  names_last : last → pathChars.names rest' = []
  length_lt : rest'.length < rest.length
  rest_noZero : NoZero rest'
  rest_head : rest'.head? ≠ some pathChars.sep

lemma cut_spec {rest : List UInt8} (hrest : NoZero rest) (hne : rest ≠ [])
    (hhead : rest.head? ≠ some pathChars.sep) :
    Cut rest (rest.takeWhile (· ≠ pathChars.sep))
      ((rest.dropWhile (· ≠ pathChars.sep)).dropWhile (· = pathChars.sep))
      (rest.dropWhile (· ≠ pathChars.sep) = []) := by
  have hcut := takeWhile_append_dropWhile (p := (· ≠ pathChars.sep)) (l := rest)
  have hsep : pathChars.sep ∉ rest.takeWhile (· ≠ pathChars.sep) := fun hm => by
    simpa using mem_takeWhile_imp hm
  have hname : rest.takeWhile (· ≠ pathChars.sep) ≠ [] := by
    cases rest with
    | nil => exact absurd rfl hne
    | cons c rest =>
      have hc : c ≠ pathChars.sep := by simpa using hhead
      simp [hc]
  refine ⟨hname, hsep, fun c hc => hrest c (takeWhile_subset _ hc), ?_, ?_, ?_,
    fun c hc => hrest c ((dropWhile_suffix _).mem ((dropWhile_suffix _).mem hc)), ?_⟩
  · rw [names_dropWhile]
    cases htail : rest.dropWhile (· ≠ pathChars.sep) with
    | nil =>
      rw [htail, append_nil] at hcut
      rw [names_nil, ← names_name hsep hname, hcut]
    | cons c tail =>
      obtain rfl := head_of_dropWhile htail
      rw [names_sep, ← names_cut hsep hname, ← htail, hcut]
  · intro hlast
    rw [hlast]
    exact names_nil
  · have h1 := (dropWhile_suffix (l := rest.dropWhile (· ≠ pathChars.sep))
      (· = pathChars.sep)).length_le
    have h2 := length_pos_of_ne_nil hname
    have h3 := congrArg List.length hcut
    rw [length_append] at h3
    omega
  exact head?_skipped _

/-- What the loop makes of the names in front of `src`. -/
def Resolves (r : Except Fault (Option (List UInt8 × Nat))) :
    Option (List (List UInt8)) → Prop
  | none => r = .ok none
  | some ns => ∃ buf dst, r = .ok (some (buf, dst)) ∧ dst < buf.length ∧
      NoZero (buf.take dst) ∧ Leaves (buf.take dst) ns

section

variable {text rest : List UInt8} {fuel : Nat}

lemma loop_again {s' : Cursors} (h : turn s = .ok (.again s')) :
    loop (fuel + 1) s = loop fuel s' := by
  rw [loop, h]
  rfl

lemma loop_stop (h : Matches (turn s) (.stop text)) (hzero : NoZero text)
    (hleaves : Leaves text ns) : Resolves (loop (fuel + 1) s) (some ns) := by
  obtain ⟨buf, dst, hturn, rfl, hlt⟩ := h
  refine ⟨buf, dst, ?_, hlt, hzero, hleaves⟩
  rw [loop, hturn]
  rfl

def LoopResolves (rest : List UInt8) : Prop :=
  ∀ (s : Cursors) (ns : List (List UInt8)) (fuel : Nat), Holds s (segments ns) (rest ++ [0]) →
    NoZero (segments ns) → (∀ n ∈ ns, pathChars.sep ∉ n) → rest.length < fuel →
      Resolves (loop fuel s) (pathChars.resolve ns (pathChars.names rest))

section

variable {name rest' : List UInt8} {last : Prop} [Decidable last] (hcut : Cut rest name rest' last)
  (ih : LoopResolves rest') (htext : NoZero (segments ns)) (hns : ∀ n ∈ ns, pathChars.sep ∉ n)
  (hfuel : rest.length < fuel + 1)

include hcut ih htext hns hfuel

lemma loop_here (hname : name = [pathChars.dot])
    (hturn : Matches (turn s) (if last then .stop (segments ns) else .again (segments ns, rest'))) :
    Resolves (loop (fuel + 1) s) (pathChars.resolve ns (pathChars.names rest)) := by
  rw [hcut.names, hname]
  by_cases hlast : last
  · rw [if_pos hlast] at hturn
    rw [hcut.names_last hlast]
    exact loop_stop hturn htext (.inl rfl)
  rw [if_neg hlast] at hturn
  obtain ⟨s', hs', hholds⟩ := hturn
  have hlt := hcut.length_lt
  rw [loop_again hs']
  exact ih s' ns fuel hholds htext hns (by omega)

omit [Decidable last] in
lemma loop_up (hname : name = [pathChars.dot, pathChars.dot])
    (hturn : Matches (turn s)
      (if segments ns = [] then .null else .again (dropName (segments ns), rest'))) :
    Resolves (loop (fuel + 1) s) (pathChars.resolve ns (pathChars.names rest)) := by
  rw [hcut.names, hname]
  rcases eq_nil_or_concat ns with rfl | ⟨ms, n, rfl⟩
  · rw [loop, show turn s = .ok .null from hturn]
    rfl
  rw [concat_eq_append] at *
  rw [if_neg (by rw [segments_eq_nil]; simp), dropName_segments (hns n (by simp))] at hturn
  obtain ⟨s', hs', hholds⟩ := hturn
  have hlt := hcut.length_lt
  rw [resolve_up _ _ (by simp), dropLast_concat, loop_again hs']
  refine ih s' ms fuel hholds ?_ (fun m hm => hns m (by simp [hm])) (by omega)
  intro c hc
  refine htext c ?_
  rw [segments_append]
  simp [hc]

lemma loop_down (h1 : name ≠ [pathChars.dot]) (h2 : name ≠ [pathChars.dot, pathChars.dot])
    (hturn : Matches (turn s) (if last then .stop (segments ns ++ name)
      else .again (segments ns ++ name ++ [pathChars.sep], rest'))) :
    Resolves (loop (fuel + 1) s) (pathChars.resolve ns (pathChars.names rest)) := by
  rw [hcut.names, resolve_down h1 h2]
  have htext' : NoZero (segments ns ++ name) := forall_mem_append.mpr ⟨htext, hcut.noZero⟩
  by_cases hlast : last
  · rw [if_pos hlast] at hturn
    rw [hcut.names_last hlast]
    refine loop_stop hturn htext' (.inr ⟨(segments_append ns name).symm, ?_⟩)
    rw [getLast?_append_of_ne_nil _ hcut.ne_nil]
    refine ⟨name.getLast hcut.ne_nil, getLast?_eq_some_getLast hcut.ne_nil, ?_⟩
    intro heq
    exact hcut.noSep (heq ▸ getLast_mem hcut.ne_nil)
  rw [if_neg hlast, ← segments_append] at hturn
  obtain ⟨s', hs', hholds⟩ := hturn
  have hlt := hcut.length_lt
  rw [loop_again hs']
  refine ih s' _ fuel hholds ?_ ?_ (by omega)
  · rw [segments_append]
    exact forall_mem_append.mpr ⟨htext', forall_mem_singleton.mpr (by decide)⟩
  exact forall_mem_append.mpr ⟨hns, forall_mem_singleton.mpr hcut.noSep⟩

end

/-- **The loop resolves the names.** The induction is on the length of the text that is still to
be read, of which every turn takes a name. -/
theorem loop_spec (hrest : NoZero rest) (hhead : rest.head? ≠ some pathChars.sep) :
    LoopResolves rest := by
  induction hm : rest.length using Nat.strong_induction_on generalizing rest with
  | _ m ih =>
    intro s ns fuel h htext hns hfuel
    obtain ⟨fuel, rfl⟩ : ∃ n, fuel = n + 1 := ⟨fuel - 1, by omega⟩
    have hturn := turn_spec h hrest
    by_cases hne : rest = []
    · subst hne
      have hstop : nextTurn (segments ns) [] = .stop (segments ns) := by
        simp [nextTurn]
      rw [hstop] at hturn
      exact loop_stop hturn htext (.inl rfl)
    have hcut := cut_spec hrest hne hhead
    have ih' := ih _ (hm ▸ hcut.length_lt) hcut.rest_noZero hcut.rest_head rfl
    unfold nextTurn at hturn
    by_cases h1 : rest.takeWhile (· ≠ pathChars.sep) = [pathChars.dot]
    · rw [if_pos h1] at hturn
      exact loop_here hcut ih' htext hns hfuel h1 hturn
    by_cases h2 : rest.takeWhile (· ≠ pathChars.sep) = [pathChars.dot, pathChars.dot]
    · rw [if_neg h1, if_pos h2] at hturn
      exact loop_up hcut ih' htext hns hfuel h2 hturn
    rw [if_neg h1, if_neg h2] at hturn
    exact loop_down hcut ih' htext hns hfuel h1 h2 hturn

end

/-! ## The whole function -/

def trim (text : List UInt8) : List UInt8 :=
  if 1 < text.length ∧ text.getLast? = some pathChars.sep then text.dropLast else text

variable {buf directory : List UInt8} {ns : List (List UInt8)} {path : List UInt8} {dst : Nat}

lemma takeWhile_of_take {n : Nat} (hzero : NoZero (buf.take n))
    (hn : n < buf.length) (hend : buf[n] = 0) : buf.takeWhile (· ≠ 0) = buf.take n := by
  calc buf.takeWhile (· ≠ 0)
      = (buf.take n ++ buf[n] :: buf.drop (n + 1)).takeWhile (· ≠ 0) := by
        rw [← drop_eq_getElem_cons hn, take_append_drop]
    _ = buf.take n := by
        rw [takeWhile_append_of_pos fun c hc => by simpa using hzero c hc, hend]
        simp

lemma getElem_pred_of_take (hpos : 0 < dst) (h : dst < buf.length) :
    (buf.take dst).getLast? = some (buf.get ⟨dst - 1, by omega⟩) := by
  rw [getLast?_eq_getElem?, getElem?_take, length_take, min_eq_left h.le, if_pos (by omega)]
  exact getElem?_eq_getElem (by omega)

lemma finish_spec (hlt : dst < buf.length) (hzero : NoZero (buf.take dst)) :
    if dst = 0 then finish buf dst = .error .outOfBounds
    else ∃ buf', finish buf dst = .ok buf' ∧ buf'.takeWhile (· ≠ 0) = trim (buf.take dst) := by
  have hwrite : write buf dst 0 = .ok (buf.set dst 0) := if_pos hlt
  have htake : (buf.set dst 0).take dst = buf.take dst := take_set_of_le (le_rfl)
  have hstr : (buf.set dst 0).takeWhile (· ≠ 0) = buf.take dst := by
    rw [takeWhile_of_take (by rwa [htake]) (by simpa using hlt) (by simp), htake]
  have hlen : (buf.take dst).length = dst := by
    rw [length_take]
    omega
  split
  · rename_i h0
    rw [finish, hwrite]
    exact if_pos h0
  rename_i h0
  rw [finish, hwrite]
  show ∃ buf', (if dst = 0 then _ else if dst - 1 ≠ 0 then _ else _) = _ ∧ _
  rw [if_neg h0]
  by_cases h1 : dst - 1 ≠ 0
  · have hlast := getElem_pred_of_take (by omega) hlt
    have hget : (buf.set dst 0)[dst - 1]? = some (buf.get ⟨dst - 1, by omega⟩) := by
      rw [getElem?_set_ne (by omega)]
      exact getElem?_eq_getElem (by omega)
    rw [if_pos h1, read_bind hget]
    by_cases hsep : buf.get ⟨dst - 1, by omega⟩ = pathChars.sep
    · refine ⟨(buf.set dst 0).set (dst - 1) 0, ?_, ?_⟩
      · rw [if_pos hsep]
        exact if_pos (by simp; omega)
      have htake' : ((buf.set dst 0).set (dst - 1) 0).take (dst - 1) = (buf.take dst).dropLast := by
        rw [take_set_of_le (le_rfl), take_set_of_le (by omega),
          dropLast_eq_take, take_take, hlen, min_eq_left (by omega)]
      have hzero' : NoZero (buf.take dst).dropLast := fun c hc => hzero c (mem_of_mem_dropLast hc)
      rw [trim, if_pos ⟨by omega, by rw [hlast, hsep]⟩]
      rw [takeWhile_of_take (by rwa [htake']) (by simp; omega) (by simp), htake']
    refine ⟨buf.set dst 0, if_neg hsep, ?_⟩
    rw [hstr, trim, if_neg fun hand => hsep (Option.some.inj (hlast.symm.trans hand.2))]
  rw [if_neg h1]
  refine ⟨buf.set dst 0, rfl, ?_⟩
  rw [hstr, trim, if_neg (by omega)]

lemma segments_root (ns : List (List UInt8)) :
    segments ([] :: ns) = ns.flatMap (pathChars.sep :: ·) ++ [pathChars.sep] := by
  induction ns with
  | nil => rfl
  | cons n ns ih =>
    have hcons : segments ([] :: n :: ns) = pathChars.sep :: (n ++ segments ([] :: ns)) := by
      simp [segments]
    rw [hcons, ih]
    simp

lemma trim_of_leaves {text : List UInt8} (h : Leaves text ([] :: ns))
    (hns : ∀ n ∈ ns, pathChars.Plain n) : text ≠ [] ∧ trim text = pathChars.render ns := by
  unfold Leaves at h
  rw [segments_root] at h
  by_cases hnil : ns = []
  · subst hnil
    rcases h with rfl | ⟨htext, c, hc, -⟩
    · exact ⟨by simp, rfl⟩
    have : text = [] := by simpa using htext
    simp [this] at hc
  have hrender := render_ne_nil (A := pathChars) hnil
  rw [← hrender] at h
  have hcanon := canonical_render hns
  have hne : pathChars.render ns ≠ [pathChars.sep] := fun heq =>
    hnil (render_inj (fun n hn => (hns n hn).ne_nil) heq)
  have hpos : pathChars.render ns ≠ [] := by
    intro heq
    simpa [heq] using hcanon.absolute
  rcases h with rfl | ⟨htext, -⟩
  · refine ⟨by simp, ?_⟩
    have hlen := length_pos_of_ne_nil hpos
    rw [trim, if_pos ⟨by simp; omega, by simp⟩, dropLast_concat]
  obtain rfl : text = pathChars.render ns := append_cancel_right htext
  refine ⟨hpos, ?_⟩
  rw [trim, if_neg fun hand => hcanon.trailing hne hand.2]

section

variable {path : List UInt8}

lemma normalize_spec (hzero : NoZero path) (habs : path.head? = some pathChars.sep) :
    match pathChars.resolve [[]] (pathChars.names path) with
    | none => normalize path = .ok none
    | some ns => normalize path ≠ .ok none ∧ ∀ ms, ns = [] :: ms → (∀ n ∈ ms, pathChars.Plain n) →
          normalize path = .ok (some (pathChars.render ms)) := by
  obtain ⟨p, rfl⟩ : ∃ p, path = pathChars.sep :: p := by
    cases path with
    | nil => simp at habs
    | cons c p =>
      obtain rfl : c = pathChars.sep := by simpa using habs
      exact ⟨p, rfl⟩
  -- the first turn copies the separator in front
  have hstart : Holds ⟨pathChars.sep :: p ++ [0], 0, 0⟩ [] (pathChars.sep :: p ++ [0]) :=
    ⟨rfl, rfl, Nat.le_refl 0, Nat.zero_le _⟩
  have hfirst := turn_spec hstart hzero
  obtain ⟨s, hs, hholds⟩ := hfirst
  have hzero' : NoZero (p.dropWhile (· = pathChars.sep)) :=
    fun c hc => hzero c (mem_cons_of_mem _ ((dropWhile_suffix _).mem hc))
  have hlen : (p.dropWhile (· = pathChars.sep)).length < (pathChars.sep :: p).length + 1 := by
    have := (dropWhile_suffix (l := p) (· = pathChars.sep)).length_le
    simp
    omega
  have hloop := loop_spec hzero' (head?_skipped p) s [[]] _ hholds
    (by simp [NoZero, segments]; decide)
    (by simp) hlen
  rw [names_dropWhile, ← names_sep] at hloop
  have hnorm : normalize (pathChars.sep :: p) =
      (loop ((pathChars.sep :: p).length + 1) s >>= fun r =>
        match r with
        | none => pure none
        | some (buf, dst) => do pure (some ((← finish buf dst).takeWhile (· ≠ 0)))) := by
    rw [normalize, loop_again hs]
  rw [hnorm]
  cases hres : pathChars.resolve [[]] (pathChars.names (pathChars.sep :: p)) with
  | none =>
    rw [hres] at hloop
    rw [show loop _ s = .ok none from hloop]
    rfl
  | some ns =>
    rw [hres] at hloop
    obtain ⟨buf, dst, hrun, hlt, htext, hleaves⟩ := hloop
    have hfin := finish_spec hlt htext
    rw [hrun]
    show (finish buf dst >>= _) ≠ _ ∧ ∀ ms, _ → _ → (finish buf dst >>= _) = _
    by_cases h0 : dst = 0
    · rw [if_pos h0] at hfin
      rw [hfin]
      refine ⟨by simp, ?_⟩
      rintro ms rfl hms
      refine absurd ?_ (trim_of_leaves hleaves hms).1
      rw [h0, take_zero]
    rw [if_neg h0] at hfin
    obtain ⟨buf', hok, hstr⟩ := hfin
    rw [hok]
    refine ⟨by simp [bind, Except.bind, pure, Except.pure], ?_⟩
    rintro ms rfl hms
    show Except.ok (some (buf'.takeWhile (· ≠ 0))) = _
    rw [hstr, (trim_of_leaves hleaves hms).2]

lemma normalize_of_resolve (hzero : NoZero path) (habs : path.head? = some pathChars.sep)
    {ns : List (List UInt8)} (h : pathChars.resolve [] (pathChars.names path) = some ns) :
    normalize path = .ok (some (pathChars.render ns)) := by
  have hspec := normalize_spec hzero habs
  rw [resolve_under h []] at hspec
  exact hspec.2 ns rfl (plain_of_resolve h)

end

lemma noZero_fullpath {filename : List UInt8} (hdir : NoZero directory)
    (hfile : NoZero filename) : NoZero (fullpath directory filename) := by
  unfold fullpath
  split
  · exact hfile
  exact forall_mem_append.mpr ⟨hdir, forall_mem_cons.mpr ⟨by decide, hfile⟩⟩

lemma head?_fullpath (filename : List UInt8) (habs : directory.head? = some pathChars.sep) :
    (fullpath directory filename).head? = some pathChars.sep := by
  unfold fullpath
  split
  · assumption
  rw [head?_append, habs]
  rfl

lemma dfsNormalizePath_canonical (hzero : NoZero path)
    (h : pathChars.Canonical path) (directory : Option (List UInt8)) :
    dfsNormalizePath true directory path = .ok (some path) := by
  obtain ⟨ns, hns, rfl⟩ := exists_of_canonical h
  have hres : pathChars.resolve [] (pathChars.names (pathChars.render ns)) = some ns := by
    rw [names_render hns, resolve_plain hns, nil_append]
  rw [dfsNormalizePath, if_neg fun hand => hand.2 h.absolute, fullpath, if_pos h.absolute]
  exact normalize_of_resolve hzero h.absolute hres

/-- What `dfs_normalize_path` is for: `RT_NULL` where a `..` climbs above the root, and the
canonical path of the resolved names otherwise, which is then left as it is. -/
def Lawful (directory filename : List UInt8) : Prop :=
  match pathChars.resolve [] (pathChars.names (fullpath directory filename)) with
  | none => dfsNormalizePath true (some directory) filename = .ok none
  | some ns =>
    dfsNormalizePath true (some directory) filename = .ok (some (pathChars.render ns)) ∧
      pathChars.Canonical (pathChars.render ns) ∧
      ∀ directory', dfsNormalizePath true directory' (pathChars.render ns) =
        .ok (some (pathChars.render ns))

lemma noZero_render (hzero : NoZero path)
    (h : pathChars.resolve [] (pathChars.names path) = some ns) : NoZero (pathChars.render ns) := by
  have hsep : pathChars.sep ≠ 0 := by decide
  have hmem : ∀ n ∈ ns, NoZero n := by
    intro n hn c hc
    rcases mem_of_resolve h hn with hn | ⟨hn, -⟩
    · simp at hn
    exact hzero c (mem_of_mem_names hn hc)
  cases ns with
  | nil => simpa [NoZero, render] using hsep
  | cons n ns =>
    intro c hc
    obtain ⟨m, hm, hc⟩ := mem_flatMap.mp hc
    have hm' : NoZero (pathChars.sep :: m) := forall_mem_cons.mpr ⟨hsep, hmem m hm⟩
    exact hm' c hc

/-- **Normalisation.** For every absolute directory and every file name, the function does what it
is for exactly when no `..` climbs above the root, or one does so even seen from a directory one
level below it. -/
theorem dfsNormalizePath_lawful_iff {directory filename : List UInt8} (hdir : NoZero directory)
    (hfile : NoZero filename) (habs : directory.head? = some pathChars.sep) :
    Lawful directory filename ↔ (pathChars.Climbs 0 (fullpath directory filename) →
        pathChars.Climbs 1 (fullpath directory filename)) := by
  have hzero := noZero_fullpath hdir hfile
  have hhead := head?_fullpath filename habs
  have hspec := normalize_spec hzero hhead
  unfold Lawful Alphabet.Climbs
  cases hres : pathChars.resolve [] (pathChars.names (fullpath directory filename)) with
  | some ns =>
    have hplain := plain_of_resolve hres
    have hcanon := canonical_render hplain
    refine iff_of_true ⟨normalize_of_resolve hzero hhead hres, hcanon, ?_⟩ ?_
    · exact dfsNormalizePath_canonical (noZero_render hzero hres) hcanon
    intro hnone
    exact absurd (hres.symm.trans hnone) (by simp)
  | none =>
    have hclimb : pathChars.resolve (List.replicate 0 [])
        (pathChars.names (fullpath directory filename)) = none := hres
    constructor
    · intro hnull _
      cases hone : pathChars.resolve [[]] (pathChars.names (fullpath directory filename)) with
      | none => exact hone
      | some ns =>
        rw [hone] at hspec
        exact absurd hnull hspec.1
    intro himp
    have hone : pathChars.resolve [[]] (pathChars.names (fullpath directory filename)) = none :=
      himp hclimb
    rw [hone] at hspec
    exact hspec

theorem dfsNormalizePath_lawful_sibling :
    Lawful (['/', 'a'].map Char.toUInt8) (['.', '.', '/', 'b'].map Char.toUInt8) :=
  (dfsNormalizePath_lawful_iff (by decide) (by decide)
    (by decide)).mpr (by decide)

/-- From `/..` the leading separator is taken away, and the byte in front of the string is read;
from `/../a` the path `a` is made, which is not absolute. -/
theorem dfsNormalizePath_above_root : pathChars.Climbs 0 (['/', '.', '.'].map Char.toUInt8) ∧
    dfsNormalizePath true (some [pathChars.sep]) (['/', '.', '.'].map Char.toUInt8) =
      .error .outOfBounds ∧
    pathChars.Climbs 0 (['/', '.', '.', '/', 'a'].map Char.toUInt8) ∧
    dfsNormalizePath true (some [pathChars.sep]) (['/', '.', '.', '/', 'a'].map Char.toUInt8) =
      .ok (some (['a'].map Char.toUInt8)) ∧
    ¬ Lawful [pathChars.sep] (['/', '.', '.'].map Char.toUInt8) ∧
    ¬ Lawful [pathChars.sep] (['/', '.', '.', '/', 'a'].map Char.toUInt8) := by
  refine ⟨by decide, by decide, by decide, by decide, fun hnull => ?_, fun hnull => ?_⟩
  · have herr : dfsNormalizePath true (some [pathChars.sep]) (['/', '.', '.'].map Char.toUInt8) =
        .ok none := hnull
    exact absurd herr (by decide)
  have hpath : dfsNormalizePath true (some [pathChars.sep])
      (['/', '.', '.', '/', 'a'].map Char.toUInt8) = .ok none := hnull
  exact absurd hpath (by decide)

end NbIot.Dfs
