import Mathlib.Data.List.TakeWhile
import NbIot.Finsh.Shell

/-! # Words of a command

`msh_split` cuts a command in place. The line is held as a zipper at `ptr`: `before` is what `ptr`
has passed, as it stands by now, and `after` what is left up to the terminating zero, so that
`position` is the length of `before`, and `position < length` as long as `after` is not empty.
Words are stored without regard to the size of `argv`.
-/

namespace NbIot.Msh

open List Shell

/-! ## `msh_split` -/

def rtFinshArgMax : Nat := 10

def quote : UInt8 := 0x22

def backslash : UInt8 := 0x5c

def isBlank (c : UInt8) : Bool := c == 0x20 || c == tab

def strip (before : List UInt8) : List UInt8 → List UInt8 × List UInt8
  | [] => (before, [])
  | c :: after => if isBlank c then strip (before ++ [0]) after else (before, c :: after)

/-- A backslash at the end is followed by the zero. -/
def skipString (before : List UInt8) : List UInt8 → List UInt8 × List UInt8
  | [] => (before, [])
  | [c] => if c = quote then (before, [c]) else (before ++ [c], [])
  | c :: d :: after =>
    if c = quote then (before, c :: d :: after)
    else if c = backslash ∧ d = quote then skipString (before ++ [c, d]) after
    else skipString (before ++ [c]) (d :: after)

def skipWord (before : List UInt8) : List UInt8 → List UInt8 × List UInt8
  | [] => (before, [])
  | c :: after => if isBlank c then (before, c :: after) else skipWord (before ++ [c]) after

/-- The text as it was cut, and what was stored in `argv`, as offsets from `cmd`. -/
def splitLoop : Nat → List UInt8 → List UInt8 → List Nat → Option (List UInt8 × List Nat)
  | 0, _, _, _ => none
  | n + 1, before, after, argv =>
    match strip before after with
    | (before, []) => some (before, argv)
    | (before, c :: after) =>
      if c = quote then
        let argv := argv ++ [before.length + 1]
        match skipString (before ++ [c]) after with
        | (before, []) => some (before, argv)
        | (before, _ :: after) => splitLoop n (before ++ [0]) after argv
      else
        let argv := argv ++ [before.length]
        match skipWord before (c :: after) with
        | (before, []) => some (before, argv)
        | (before, after) => splitLoop n before after argv

def mshSplit (text : List UInt8) : Option (List UInt8 × List Nat) :=
  splitLoop (text.length + 1) [] text []

/-! ## The words of a line -/

/-- In a string, a quote is preceded by a backslash. -/
def Escaped (a c : UInt8) : Prop := c = quote → a = backslash
  deriving Decidable

/-- The words of a text, and the text after they were cut out. -/
inductive Splits : List UInt8 → List (List UInt8) → List UInt8 → Prop
  | nil : Splits [] [] []
  | blank {c : UInt8} {t cut : List UInt8} {words : List (List UInt8)} (hc : isBlank c = true)
      (h : Splits t words cut) : Splits (c :: t) words (0 :: cut)
  /-- a longest run of characters other than blanks -/
  | word {c : UInt8} {w t cut : List UInt8} {words : List (List UInt8)} (hc : c ≠ quote)
      (hw : ∀ d ∈ c :: w, isBlank d = false) (ht : ∀ d ∈ t.head?, isBlank d = true)
      (h : Splits t words cut) : Splits (c :: w ++ t) ((c :: w) :: words) (c :: w ++ cut)
  | string {w t cut : List UInt8} {words : List (List UInt8)} (hw : IsChain Escaped (quote :: w))
      (hend : (quote :: w).getLast? ≠ some backslash) (h : Splits t words cut) :
      Splits (quote :: w ++ quote :: t) (w :: words) (quote :: w ++ 0 :: cut)
  /-- a string without an end -/
  | rest {w : List UInt8} (hw : IsChain Escaped (quote :: w)) :
      Splits (quote :: w) [w] (quote :: w)

/-- `p` points to the word `w`, with a zero behind it. -/
def Points (cmd : List UInt8) (p : Nat) (w : List UInt8) : Prop := w ++ [0] <+: cmd.drop p

/-! ## The loop finds the words -/

variable {b t cut w text : List UInt8} {words : List (List UInt8)} {a c : UInt8} {n : Nat}
  {v : List Nat}

lemma splitLoop_blank (hc : isBlank c = true) :
    splitLoop (n + 1) b (c :: t) v = splitLoop (n + 1) (b ++ [0]) t v := by
  rw [splitLoop, splitLoop, strip, if_pos hc]

lemma skipWord_eq (hw : ∀ d ∈ w, isBlank d = false) (ht : ∀ d ∈ t.head?, isBlank d = true) :
    skipWord b (w ++ t) = (b ++ w, t) := by
  induction w generalizing b with
  | nil => cases t <;> simp_all [skipWord]
  | cons c w ih =>
    obtain ⟨hc, hw⟩ := forall_mem_cons.mp hw
    simp [skipWord, hc, ih hw]

lemma skipString_quote : skipString b (quote :: t) = (b, quote :: t) := by
  cases t <;> simp [skipString]

lemma skipString_eq (hw : IsChain Escaped (a :: w)) (ha : a = backslash → w.head? ≠ some quote)
    (ht : t = [] ∨ (∃ u, t = quote :: u) ∧ (a :: w).getLast? ≠ some backslash) :
    skipString b (w ++ t) = (b ++ w, t) := by
  -- two steps at once, since an escaped quote is skipped with its backslash
  induction w using twoStepInduction generalizing b a with
  | nil => rcases ht with rfl | ⟨⟨u, rfl⟩, -⟩ <;> simp [skipString, skipString_quote]
  | singleton c =>
    have hc : c ≠ quote := fun he => ha ((isChain_cons_cons.mp hw).1 he) (by simp [he])
    rcases ht with rfl | ⟨⟨u, rfl⟩, hlast⟩
    · simp [skipString, hc]
    · have hb : c ≠ backslash := by simpa using hlast
      simp [skipString, hc, hb, skipString_quote]
  | cons_cons c d w ih ih' =>
    have hc : c ≠ quote := fun he => ha ((isChain_cons_cons.mp hw).1 he) (by simp [he])
    have hchain := (isChain_cons_cons.mp hw).2
    rw [cons_append, cons_append, skipString, if_neg hc]
    split
    next hesc =>
      obtain ⟨-, rfl⟩ := hesc
      rw [ih (isChain_cons_cons.mp hchain).2 (by simp [quote, backslash]) (by simpa using ht)]
      simp
    next hesc =>
      rw [← cons_append, ih' d hchain (fun h => by simpa [h] using hesc) (by simpa using ht)]
      simp

lemma Splits.zero (h : Splits t words cut) (ht : ∀ d ∈ t.head?, isBlank d = true) :
    [0] <+: cut ++ [0] := by
  cases h with
  | nil | blank => simp
  | word hc hw => simp [hw] at ht
  | string | rest => simp [isBlank, quote, tab] at ht

lemma splitLoop_eq (h : Splits text words cut) (hn : text.length ≤ n) :
    ∃ ptrs, splitLoop (n + 1) b text v = some (b ++ cut, v ++ ptrs) ∧
      Forall₂ (Points (b ++ cut ++ [0])) ptrs words := by
  induction h generalizing b v n with
  | nil => exact ⟨[], by simp [splitLoop, strip], .nil⟩
  | blank hc h ih =>
    obtain ⟨ptrs, hrun, hpoints⟩ := ih (b := b ++ [0]) (v := v) (Nat.le_of_succ_le hn)
    rw [splitLoop_blank hc]
    exact ⟨ptrs, by simpa using hrun, by simpa using hpoints⟩
  | @word c w t cut words hc hw ht h ih =>
    obtain ⟨n, rfl⟩ : ∃ m, n = m + 1 := ⟨n - 1, by simp at hn; omega⟩
    obtain ⟨ptrs, hrun, hpoints⟩ := ih (n := n) (b := b ++ c :: w) (v := v ++ [b.length])
      (by simp at hn; omega)
    refine ⟨b.length :: ptrs, ?_, .cons ?_ (by simpa using hpoints)⟩
    · rw [splitLoop, cons_append, strip, if_neg (by simp [hw c])]
      dsimp only
      rw [if_neg hc, ← cons_append, skipWord_eq hw ht]
      cases t with
      | nil => simpa [splitLoop, strip] using hrun
      | cons d t => simpa using hrun
    simpa [Points] using h.zero ht
  | @string w t cut words hw hend h ih =>
    obtain ⟨n, rfl⟩ : ∃ m, n = m + 1 := ⟨n - 1, by simp at hn; omega⟩
    obtain ⟨ptrs, hrun, hpoints⟩ := ih (n := n) (b := b ++ (quote :: w ++ [0]))
      (v := v ++ [b.length + 1]) (by simp at hn; omega)
    refine ⟨(b.length + 1) :: ptrs, ?_, .cons ?_ (by simpa using hpoints)⟩
    · rw [splitLoop, cons_append, strip, if_neg (by decide)]
      dsimp only
      rw [if_pos rfl, skipString_eq hw (by simp [quote, backslash]) (.inr ⟨⟨_, rfl⟩, hend⟩)]
      simpa using hrun
    simp [Points, drop_append, drop_eq_nil_of_le]
  | @rest w hw =>
    refine ⟨[b.length + 1], ?_, .cons ?_ .nil⟩
    · rw [splitLoop, strip, if_neg (by decide)]
      dsimp only
      have hskip := skipString_eq (b := b ++ [quote]) hw (by simp [quote, backslash]) (.inl rfl)
      rw [append_nil] at hskip
      rw [if_pos rfl, hskip]
      simp
    simp [Points, drop_append, drop_eq_nil_of_le]

lemma exists_end (a : UInt8) (t : List UInt8) : IsChain Escaped (a :: t) ∨ ∃ w u,
    t = w ++ quote :: u ∧ IsChain Escaped (a :: w) ∧ (a :: w).getLast? ≠ some backslash := by
  induction t generalizing a with
  | nil => exact .inl (isChain_singleton a)
  | cons c t ih =>
    by_cases hac : Escaped a c
    · rcases ih c with hall | ⟨w, u, rfl, hw, hlast⟩
      · exact .inl (isChain_cons_cons.mpr ⟨hac, hall⟩)
      · exact .inr ⟨c :: w, u, rfl, isChain_cons_cons.mpr ⟨hac, hw⟩, by simpa using hlast⟩
    · obtain ⟨rfl, ha⟩ := Classical.not_imp.mp hac
      exact .inr ⟨[], t, rfl, isChain_singleton a, by simpa using ha⟩

lemma exists_splits (text : List UInt8) : ∃ words cut, Splits text words cut := by
  induction hk : text.length using Nat.strong_induction_on generalizing text with | _ k ih
  cases text with
  | nil => exact ⟨_, _, .nil⟩
  | cons c t =>
    by_cases hc : isBlank c = true
    · obtain ⟨words, cut, h⟩ := ih t.length (by simp at hk; omega) t rfl
      exact ⟨_, _, .blank hc h⟩
    by_cases hq : c = quote
    · subst hq
      rcases exists_end quote t with hall | ⟨w, u, rfl, hw, hlast⟩
      · exact ⟨_, _, .rest hall⟩
      · obtain ⟨words, cut, h⟩ := ih u.length (by simp at hk; omega) u rfl
        exact ⟨_, _, .string hw hlast h⟩
    let p := fun d => !isBlank d
    have hle := (t.dropWhile_sublist p).length_le
    obtain ⟨words, cut, h⟩ := ih (t.dropWhile p).length (by simp at hk; omega) _ rfl
    have hw : ∀ d ∈ c :: t.takeWhile p, isBlank d = false :=
      forall_mem_cons.mpr ⟨by simpa using hc, fun d hd => by simpa [p] using mem_takeWhile_imp hd⟩
    have ht : ∀ d ∈ (t.dropWhile p).head?, isBlank d = true := fun d hd =>
      find?_some ((t.find?_eq_head?_dropWhile_not isBlank).trans hd)
    have hsplit := Splits.word hq hw ht h
    rw [cons_append, takeWhile_append_dropWhile] at hsplit
    exact ⟨_, _, hsplit⟩

/-! ## Lines with many words -/

/-- A blank or a closing quote may become zero. -/
def Cut (c d : UInt8) : Prop := d = c ∨ d = 0 ∧ (isBlank c = true ∨ c = quote)

lemma Splits.forall_cut (h : Splits t words cut) : Forall₂ Cut t cut := by
  have hsame : ∀ w, Forall₂ Cut w w := fun w => forall₂_same.mpr fun c _ => .inl rfl
  induction h with
  | nil => exact .nil
  | blank hc h ih => exact .cons (.inr ⟨rfl, .inl hc⟩) ih
  | word hc hw ht h ih => exact rel_append (hsame _) ih
  | string hw hend h ih => exact rel_append (hsame _) (.cons (.inr ⟨rfl, .inr rfl⟩) ih)
  | rest hw => exact hsame _

/-- **Words.** Every text can be split, and however it is, `msh_split` returns the number of words
and pointers to them, and cuts nothing but blanks and closing quotes. -/
theorem mshSplit_words (text : List UInt8) : (∃ words cut, Splits text words cut) ∧
    ∀ words cut, Splits text words cut → Forall₂ Cut text cut ∧
      ∃ argv, mshSplit text = some (cut, argv) ∧ argv.length = words.length ∧
        Forall₂ (Points (cut ++ [0])) argv words := by
  refine ⟨exists_splits text, fun words cut h => ⟨h.forall_cut, ?_⟩⟩
  obtain ⟨argv, hrun, hpoints⟩ := splitLoop_eq (b := []) (v := []) h le_rfl
  exact ⟨argv, hrun, hpoints.length_eq, hpoints⟩

/-- `a "b c"` -/
def twoWords : List UInt8 := [0x61, 0x20, 0x22, 0x62, 0x20, 0x63, 0x22]

lemma splits_twoWords :
    Splits twoWords [[0x61], [0x62, 0x20, 0x63]] [0x61, 0, 0x22, 0x62, 0x20, 0x63, 0] :=
  .word (w := []) (by decide) (by decide +kernel) (by decide +kernel) (.blank rfl
    (.string (w := [0x62, 0x20, 0x63]) (by decide +kernel) (by decide) .nil))

theorem mshSplit_words_two : ∃ argv, mshSplit twoWords =
    some ([0x61, 0, 0x22, 0x62, 0x20, 0x63, 0], argv) ∧ argv.length = 2 := by
  obtain ⟨-, argv, hrun, hlen, -⟩ := (mshSplit_words _).2 _ _ splits_twoWords
  exact ⟨argv, hrun, hlen⟩

/-- What is stored fits in `argv` just if there are at most ten words. -/
theorem mshSplit_bounded_iff (h : Splits text words cut) :
    (∃ argv, mshSplit text = some (cut, argv) ∧ argv.length ≤ rtFinshArgMax) ↔
      words.length ≤ rtFinshArgMax := by
  obtain ⟨argv, hrun, hpoints⟩ := splitLoop_eq (b := []) (v := []) h le_rfl
  simp [mshSplit, hrun, ← hpoints.length_eq]

theorem mshSplit_bounded_two :
    ∃ argv, mshSplit twoWords = some ([0x61, 0, 0x22, 0x62, 0x20, 0x63, 0], argv) ∧
      argv.length ≤ rtFinshArgMax :=
  (mshSplit_bounded_iff splits_twoWords).mpr (by decide)

/-- Eleven words of one character. -/
def eleven : List UInt8 := (replicate 11 [0x61, 0x20]).flatten

theorem mshSplit_overruns : eleven.length < finshCmdSize ∧
    (mshSplit eleven).map (·.2.length) = some 11 := by
  decide

end NbIot.Msh
