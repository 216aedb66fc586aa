import Mathlib.Tactic

/-! # Skip lists

A list with express lanes: the rows `row 0, …, row last`, each a sublist of the next one, so that
`row last` has all the nodes. A node is a value of `α`, and the head of a row is `none`.
-/

namespace NbIot.SkipList

open List

/-! ## The operations -/

variable {α : Type}

section

variable [DecidableEq α]

/-- The nodes of a row behind the node `p`. -/
def after : Option α → List α → List α
  | none, l => l
  | some a, l => (l.dropWhile fun b => b ≠ a).tail

/-- From the node `p` along the row that goes on with `l`, as long as the nodes pass. -/
def advance (pass : α → Bool) : Option α → List α → Option α
  | p, [] => p
  | p, b :: l => if pass b then advance pass (some b) l else p

/-- The node that is reached in row `i`. -/
def rowHead (pass : α → Bool) (row : Nat → List α) : Nat → Option α
  | 0 => advance pass none (row 0)
  | i + 1 => advance pass (rowHead pass row i) (after (rowHead pass row i) (row (i + 1)))

/-- The node `a` is linked behind the node `p`. -/
def insertAfter : Option α → α → List α → List α
  | none, a, l => a :: l
  | some _, _, [] => []
  | some b, a, c :: l => if c = b then c :: a :: l else c :: insertAfter (some b) a l

/-- The node `a` is linked in the rows from `m` on. -/
def insert (pass : α → Bool) (a : α) (row : Nat → List α) (m : Nat) : Nat → List α := fun i =>
  if m ≤ i then insertAfter (rowHead pass row i) a (row i) else row i

/-- The node `a` is unlinked from all rows. -/
def remove (a : α) (row : Nat → List α) : Nat → List α := fun i => (row i).filter fun b => b ≠ a

end

/-! ## Rows, and an order on them -/

/-- Each row is a sublist of the next one, up to the row `last`. -/
structure Rows (last : Nat) (row : Nat → List α) : Prop where
  sub : ∀ i, i < last → List.Sublist (row i) (row (i + 1))
  nodup : (row last).Nodup

lemma Rows.sublist {last : Nat} {row : Nat → List α} (h : Rows last row) {i : Nat}
    (hi : i ≤ last) : List.Sublist (row i) (row last) := by
  -- downwards from the last row
  induction hd : last - i generalizing i with
  | zero =>
    obtain rfl : i = last := by omega
    exact List.Sublist.refl _
  | succ d ih => exact (h.sub i (by omega)).trans (ih (by omega) (by omega))

def Mono (pass : α → Bool) (l : List α) : Prop :=
  l.Pairwise fun a b => pass b = true → pass a = true

lemma Mono.split {pass : α → Bool} {l : List α} (h : Mono pass l) :
    l = l.filter pass ++ l.filter fun a => !pass a := by
  induction l with
  | nil => rfl
  | cons a l ih =>
    obtain ⟨ha, hl⟩ := pairwise_cons.mp h
    by_cases hp : pass a = true
    · simp only [filter_cons, hp]
      exact congrArg (a :: ·) (ih hl)
    -- behind a node that does not pass there is none that does
    have hnone : ∀ b ∈ l, ¬ pass b = true := fun b hb hpb => hp (ha b hb hpb)
    have hnil : l.filter pass = [] := filter_eq_nil_iff.mpr hnone
    have hall : (l.filter fun a => !pass a) = l :=
      filter_eq_self.mpr fun b hb => by simpa using hnone b hb
    simp [hp, hnil, hall]

/-! ## What the operations do to ordered rows -/

section

variable [DecidableEq α] {pass : α → Bool} {l : List α} {a b : α} {last : Nat} {row : Nat → List α}
  {l1 l2 : List α}

lemma after_append (hb : b ∉ l1) : after (some b) (l1 ++ b :: l2) = l2 := by
  have hdrop : (l1 ++ b :: l2).dropWhile (fun c => c ≠ b) = b :: l2 := by
    induction l1 with
    | nil => simp
    | cons c l1 ih =>
      obtain ⟨hne, hrest⟩ := not_or.mp (fun h => hb (mem_cons.mpr h))
      simpa [Ne.symm hne] using ih hrest
  rw [after, hdrop]
  rfl

lemma insertAfter_append (hb : b ∉ l1) :
    insertAfter (some b) a (l1 ++ b :: l2) = l1 ++ b :: a :: l2 := by
  induction l1 with
  | nil => simp [insertAfter]
  | cons c l1 ih =>
    obtain ⟨hne, hrest⟩ := not_or.mp (fun h => hb (mem_cons.mpr h))
    simp [insertAfter, Ne.symm hne, ih hrest]

omit [DecidableEq α] in
lemma advance_eq (h : Mono pass l) (p : Option α) :
    advance pass p l = (l.filter pass).getLast?.or p := by
  induction l generalizing p with
  | nil => rfl
  | cons b l ih =>
    obtain ⟨hb, hl⟩ := pairwise_cons.mp h
    rw [advance]
    split
    · rename_i hp
      rw [ih hl, filter_cons_of_pos hp, getLast?_cons]
      cases (l.filter pass).getLast? <;> rfl
    rename_i hp
    have hnil : (b :: l).filter pass = [] := by
      refine filter_eq_nil_iff.mpr fun c hc hpc => ?_
      rcases mem_cons.mp hc with rfl | hc
      · exact hp hpc
      exact hp (hb c hc hpc)
    rw [hnil]
    rfl

lemma rowHead_eq (h : Rows last row) (hmono : Mono pass (row last)) {i : Nat} (hi : i ≤ last) :
    rowHead pass row i = ((row i).filter pass).getLast? := by
  have hrow : ∀ j ≤ last, Mono pass (row j) := fun j hj =>
    List.Pairwise.sublist (h.sublist hj) hmono
  induction i with
  | zero =>
    rw [rowHead, advance_eq (hrow 0 hi)]
    exact Option.or_none
  | succ i ih =>
    have hhead := ih (by omega)
    rw [rowHead, hhead]
    cases hp : ((row i).filter pass).getLast? with
    | none =>
      rw [after, advance_eq (hrow (i + 1) hi)]
      exact Option.or_none
    | some b =>
      -- the node that was reached in the row above is in this row too
      have hmem := mem_of_getLast? hp
      obtain ⟨hb, hpass⟩ := mem_filter.mp hmem
      obtain ⟨l1, l2, hsplit⟩ := append_of_mem ((h.sub i (by omega)).subset hb)
      have hnd : (row (i + 1)).Nodup := h.nodup.sublist (h.sublist hi)
      have hmono2 := hrow (i + 1) hi
      rw [hsplit] at hnd hmono2 ⊢
      have hnot : b ∉ l1 := fun hm => (nodup_append.mp hnd).2.2 b hm b (by simp) rfl
      have hm2 : Mono pass l2 := (pairwise_cons.mp (pairwise_append.mp hmono2).2.1).2
      rw [after_append hnot, advance_eq hm2, filter_append, getLast?_append,
        filter_cons_of_pos hpass, getLast?_cons]
      cases (l2.filter pass).getLast? <;> rfl

lemma insertAfter_getLast? (hmono : Mono pass l) (hnd : l.Nodup) :
    insertAfter (l.filter pass).getLast? a l = l.filter pass ++ a :: l.filter fun b => !pass b := by
  have hsplit := hmono.split
  cases hp : (l.filter pass).getLast? with
  | none =>
    have hnil : l.filter pass = [] := getLast?_eq_none_iff.mp hp
    rw [hnil, nil_append] at hsplit ⊢
    rw [insertAfter, ← hsplit]
  | some b =>
    obtain ⟨l1, hl1⟩ := getLast?_eq_some_iff.mp hp
    rw [hl1, append_assoc] at hsplit
    have hnot : b ∉ l1 := by
      rw [hsplit] at hnd
      exact fun hm => (nodup_append.mp hnd).2.2 b hm b (by simp) rfl
    calc insertAfter (some b) a l
        = insertAfter (some b) a (l1 ++ b :: l.filter fun b => !pass b) := congrArg _ hsplit
      _ = l1 ++ b :: a :: l.filter fun b => !pass b := insertAfter_append hnot
      _ = l.filter pass ++ a :: l.filter fun b => !pass b := by simp [hl1]

lemma insert_eq (h : Rows last row)
    (hmono : Mono pass (row last)) {i m : Nat} (hi : i ≤ last) (hm : m ≤ i) :
    insert pass a row m i = (row i).filter pass ++ a :: (row i).filter fun b => !pass b := by
  rw [insert, if_pos hm, rowHead_eq h hmono hi]
  exact insertAfter_getLast? (List.Pairwise.sublist (h.sublist hi) hmono)
    (h.nodup.sublist (h.sublist hi))

lemma Rows.insert (h : Rows last row) (hmono : Mono pass (row last)) (ha : a ∉ row last) {m : Nat}
    (hm : m ≤ last) : Rows last (SkipList.insert pass a row m) := by
  refine ⟨fun i hi => ?_, ?_⟩
  · have hsub := h.sub i hi
    by_cases hmi : m ≤ i
    · rw [insert_eq h hmono hi.le hmi, insert_eq h hmono hi (by omega)]
      exact (hsub.filter _).append ((hsub.filter _).cons_cons a)
    -- the new node is not in row `i`
    have hsame : SkipList.insert pass a row m i = row i := if_neg hmi
    rw [hsame]
    by_cases hmi' : m ≤ i + 1
    · have hrow : Mono pass (row (i + 1)) := List.Pairwise.sublist (h.sublist hi) hmono
      rw [insert_eq h hmono hi hmi']
      rw [hrow.split] at hsub
      exact hsub.trans ((List.Sublist.refl _).append (sublist_cons_self _ _))
    have hsame' : SkipList.insert pass a row m (i + 1) = row (i + 1) := if_neg hmi'
    rwa [hsame']
  rw [insert_eq h hmono (le_rfl) hm, nodup_middle, ← hmono.split]
  exact nodup_cons.mpr ⟨ha, h.nodup⟩

lemma Rows.remove (h : Rows last row) (a : α) : Rows last (SkipList.remove a row) :=
  ⟨fun i hi => (h.sub i hi).filter _, h.nodup.filter _⟩

end

end NbIot.SkipList
