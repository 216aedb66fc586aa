import NbIot.Kservice.Format

/-! # The formatter stays inside its buffer

The text that `rt_vsnprintf` leaves in a buffer of `size` bytes is the beginning of the text it
would write without a limit, and it touches nothing else (`vsnprintf_bounded`). Nothing about the
conversions is needed for that: every store is guarded, so it is a fact about `Output`.
-/

namespace NbIot.Kservice

open Output List

/-! ## The text -/

def untruncated (is : List Item) : List UInt8 := (text (fun _ => true) 0 (printAll is)).2

/-- The number of characters written into a buffer of `size` bytes, those included that are not
stored: how far the cursor moves. -/
def written (size : Nat) (is : List Item) : Nat :=
  count (fun n => decide (n < size)) 0 (printAll is)

/-! ## The end of the buffer -/

variable {buf size : Nat}

lemma lastOf_eq (h1 : 1 ≤ size) (hbuf : buf + size ≤ wordSize) :
    lastOf buf size = buf + size - 1 := by
  have hlast : sub32 (add32 buf size) 1 = buf + size - 1 := by
    unfold sub32 add32 wordSize at *
    omega
  rw [lastOf, hlast, if_neg (by omega)]

lemma lastOf_unlimited (h0 : 0 < buf) (hbuf : buf < wordSize) :
    lastOf buf (wordSize - 1) = wordSize - 1 := by
  unfold lastOf sub32 add32 wordSize at *
  split <;> omega

lemma inside_lastOf (h1 : 1 ≤ size) (hbuf : buf + size ≤ wordSize) :
    inside buf (lastOf buf size) = fun n => decide (n < size) := by
  funext n
  rw [lastOf_eq h1 hbuf]
  exact decide_eq_decide.mpr (by omega)

lemma rtVsnprintf_eq {mem : Mem} {fmt : List UInt8} {args : List Arg}
    {is : List Item} (h : items fmt args = some is) (h1 : 1 ≤ size)
    (hbuf : buf + size ≤ wordSize) (hwrap : buf + written size is < wordSize) :
    rtVsnprintf mem buf size fmt args = some (int32 (written size is),
      setByte (stored mem buf (buf + size - 1)
        (text (fun n => decide (n < size)) 0 (printAll is)).2)
        (buf + min (size - 1) (written size is)) 0) := by
  have hin := inside_lastOf h1 hbuf
  have hrun := write_eq buf (lastOf buf size) 0 (printAll is) mem (by rw [hin]; exact hwrap)
  have hcount : count (fun n => decide (n < size)) 0 (printAll is) = written size is := rfl
  rw [hin, hcount, add_zero] at hrun
  have hend : (if buf + written size is ≤ lastOf buf size then buf + written size is
      else lastOf buf size) = buf + min (size - 1) (written size is) := by
    rw [lastOf_eq h1 hbuf]
    split <;> omega
  have hret : ((buf + written size is : Nat) : Int) - (buf : Int) = written size is := by omega
  rw [rtVsnprintf, h, Option.map_some, printOut, hrun]
  simp only [hend, hret]
  rw [lastOf_eq h1 hbuf]

/-! ## The laws -/

/-- **Bounded formatting.** For every format and every list of arguments that matches it, the call
returns; it writes only inside the `size` bytes from `buf` on, and leaves there the first
`min (size - 1) L` characters of the text without a limit, `L` being the length of that text,
with a zero behind them. -/
theorem vsnprintf_bounded (mem : Mem) (buf size : Nat) (fmt : List UInt8) (args : List Arg)
    (is : List Item) (h : items fmt args = some is) (h1 : 1 ≤ size)
    (hbuf : buf + size ≤ wordSize) (hwrap : buf + written size is < wordSize) :
    ∃ n m, rtVsnprintf mem buf size fmt args = some (n, m) ∧
      (∀ x, x < buf ∨ buf + size ≤ x → m x = mem x) ∧
      m (buf + min (size - 1) (untruncated is).length) = 0 ∧
      ∀ i < min (size - 1) (untruncated is).length, (untruncated is)[i]? = some (m (buf + i)) := by
  set l := (text (fun n => decide (n < size)) 0 (printAll is)).2 with hl
  have hlen : l.length = written size is := rfl
  -- both texts begin alike, so they are equally long up to the end of the buffer
  have htake : l.take size = (untruncated is).take size := by
    have hfits : ∀ n < size, decide (n < size) = true := fun n hn => decide_eq_true hn
    have := take_text hfits 0 (printAll is)
    rwa [Nat.sub_zero] at this
  have hmin : min (size - 1) (written size is) = min (size - 1) (untruncated is).length := by
    have := congrArg List.length htake
    rw [length_take, length_take] at this
    omega
  refine ⟨_, _, rtVsnprintf_eq h h1 hbuf hwrap, ?_, ?_, ?_⟩
  · intro x hx
    have hne : x ≠ buf + min (size - 1) (written size is) := by omega
    rw [setByte, if_neg hne, stored, if_neg (by omega)]
  · rw [← hmin, setByte, if_pos rfl]
  intro i hi
  have hne : buf + i ≠ buf + min (size - 1) (written size is) := by omega
  have hlt : i < l.length := by omega
  have hstored : stored mem buf (buf + size - 1) l (buf + i) = l[i] := by
    rw [stored, if_pos (by omega), Nat.add_sub_cancel_left, getD_eq_getElem?_getD,
      getElem?_eq_getElem hlt, Option.getD_some]
  rw [setByte, if_neg hne, hstored]
  calc (untruncated is)[i]? = ((untruncated is).take size)[i]? := by
        rw [getElem?_take, if_pos (by omega)]
    _ = (l.take size)[i]? := by rw [htake]
    _ = some l[i] := by
        rw [getElem?_take, if_pos (by omega), getElem?_eq_getElem hlt]

/-- **`rt_vsprintf`** stores the whole text behind `buf`, a zero behind it and nothing else, and
returns its length. -/
theorem rtVsprintf_untruncated (mem : Mem) (buf : Nat) (fmt : List UInt8) (args : List Arg)
    (is : List Item) (h : items fmt args = some is) (h0 : 0 < buf)
    (hwrap : buf + (untruncated is).length < wordSize) :
    rtVsprintf mem buf fmt args = some (int32 (untruncated is).length,
      setByte (stored mem buf (wordSize - 1) (untruncated is))
        (buf + (untruncated is).length) 0) := by
  have hlast := lastOf_unlimited h0 (show buf < wordSize by omega)
  set l := (text (inside buf (wordSize - 1)) 0 (printAll is)).2 with hl
  -- all offsets of the text are inside, so the two texts are the same
  have hsame : l = untruncated is := by
    have hfits : ∀ n < wordSize - buf, inside buf (wordSize - 1) n = true := fun n hn =>
      decide_eq_true (by omega)
    have htake := take_text hfits 0 (printAll is)
    have htake' : l.take (wordSize - buf) = untruncated is := by
      exact htake.trans (take_of_length_le (show (untruncated is).length ≤ _ by omega))
    have hlen := congrArg List.length htake'
    rw [length_take] at hlen
    rw [← htake', take_of_length_le (by omega)]
  have hcount : count (inside buf (wordSize - 1)) 0 (printAll is) = (untruncated is).length := by
    rw [← hsame]; rfl
  have hrun := write_eq buf (wordSize - 1) 0 (printAll is) mem (by rw [hcount]; exact hwrap)
  rw [hcount, ← hl, hsame, add_zero] at hrun
  have hret : ((buf + (untruncated is).length : Nat) : Int) - (buf : Int)
      = (untruncated is).length := by omega
  rw [rtVsprintf, rtVsnprintf, h, Option.map_some, hlast, printOut, hrun]
  simp only [hret, if_pos (show buf + (untruncated is).length ≤ wordSize - 1 by omega)]

/-- `"ab%05d"`. -/
def abFormat : List UInt8 := ['a', 'b', '%', '0', '5', 'd'].map Char.toUInt8

def abItems : List Item :=
  [.plain 'a'.toUInt8, .plain 'b'.toUInt8, .num (-1) 10 5 (-1) { zeropad := true, sign := true }]

/-- `"ab-0001"`. -/
theorem rtVsprintf_untruncated_number :
    ∃ m, rtVsprintf (fun _ => 0xff) 4096 abFormat [.int (-1)] = some (7, m) ∧
      (∀ i < 7, (['a', 'b', '-', '0', '0', '0', '1'].map Char.toUInt8)[i]? = some (m (4096 + i))) ∧
      m 4103 = 0 ∧ m 4104 = 0xff := by
  have htext : untruncated abItems = ['a', 'b', '-', '0', '0', '0', '1'].map Char.toUInt8 := by
    decide +kernel
  have hrun := rtVsprintf_untruncated (fun _ => 0xff) 4096 abFormat [.int (-1)] abItems
    (by decide +kernel) (by decide) (by rw [htext]; decide)
  rw [htext] at hrun
  exact ⟨_, hrun, by decide, by decide, by decide⟩

theorem vsnprintf_bounded_four :
    ∃ n m, rtVsnprintf (fun _ => 0xff) 4096 4 abFormat [.int (-1)] = some (n, m) ∧
      (∀ x, x < 4096 ∨ 4100 ≤ x → m x = 0xff) ∧ m 4099 = 0 ∧
      ∀ i < 3, (['a', 'b', '-'].map Char.toUInt8)[i]? = some (m (4096 + i)) := by
  obtain ⟨n, m, hrun, hout, hnul, htext⟩ := vsnprintf_bounded (fun _ => 0xff) 4096 4 abFormat
    [.int (-1)] abItems (by decide +kernel) (by decide) (by decide) (by decide +kernel)
  refine ⟨n, m, hrun, hout, hnul, fun i hi => ?_⟩
  rw [← htext i hi]
  have hall : ∀ j < 3, (['a', 'b', '-'].map Char.toUInt8)[j]? = (untruncated abItems)[j]? := by
    decide +kernel
  exact hall i hi

end NbIot.Kservice
