import Mathlib.Tactic

/-! # Null-terminated chains

A singly linked list as it stands in memory: `next` gives the successor of a node, `none` being
the null pointer. `Chain next h l` says that the nodes reached from the pointer `h` are those of
the list `l`, in this order, and that the last of them points nowhere. A chain is determined by
`next` and `h`, and since `l` is finite it has no cycle.
-/

namespace NbIot

variable {α : Type}

/-- The nodes `l` are linked from `h` on. -/
def Chain (next : α → Option α) : Option α → List α → Prop
  | h, [] => h = none
  | h, a :: l => h = some a ∧ Chain next (next a) l

namespace Chain

variable {next next' : α → Option α} {h : Option α} {a : α} {l : List α}

lemma head_eq (hc : Chain next h l) : h = l.head? := by
  cases l with
  | nil => exact hc
  | cons b l => exact hc.1

lemma congr (hc : Chain next h l) (hn : ∀ b ∈ l, next' b = next b) : Chain next' h l := by
  induction l generalizing h with
  | nil => exact hc
  | cons b l ih =>
    refine ⟨hc.1, ?_⟩
    rw [hn b (by simp)]
    exact ih hc.2 fun c hmem => hn c (by simp [hmem])

lemma of_some (hc : Chain next (some a) l) : ∃ l', l = a :: l' ∧ Chain next (next a) l' := by
  cases l with
  | nil => exact absurd hc (by simp [Chain])
  | cons b l =>
    obtain rfl : a = b := Option.some.inj hc.1
    exact ⟨l, rfl, hc.2⟩

lemma push (hc : Chain next h l) (ha : next' a = h) (hn : ∀ b ∈ l, next' b = next b) :
    Chain next' (some a) (a :: l) := by
  refine ⟨rfl, ?_⟩
  rw [ha]
  exact hc.congr hn

lemma snoc (hc : Chain next h l) (ha : next' a = none)
    (hlast : ∀ b ∈ l.getLast?, next' b = some a) (hn : ∀ b ∈ l.dropLast, next' b = next b) :
    Chain next' (if l = [] then some a else h) (l ++ [a]) := by
  induction l generalizing h with
  | nil => exact ⟨rfl, ha⟩
  | cons b l ih =>
    refine ⟨hc.1, ?_⟩
    by_cases hl : l = []
    · subst hl
      exact ⟨hlast b (by simp), ha⟩
    have hrest := ih hc.2 (fun c hmem => hlast c (by rwa [List.getLast?_cons_of_ne_nil hl]))
      (fun c hmem => hn c (by rw [List.dropLast_cons_of_ne_nil hl]; simp [hmem]))
    rw [if_neg hl] at hrest
    rw [hn b (by rw [List.dropLast_cons_of_ne_nil hl]; simp)]
    exact hrest

lemma range' {f : Nat → α} {n : Nat} (hnext : ∀ i, i + 1 < n → next (f i) = some (f (i + 1)))
    (hlast : ∀ i, i + 1 = n → next (f i) = none) (k i : Nat) (hk : i + (k + 1) = n) :
    Chain next (some (f i)) ((List.range' i (k + 1)).map f) := by
  induction k generalizing i with
  | zero => exact ⟨rfl, hlast i hk⟩
  | succ k ih =>
    refine ⟨rfl, ?_⟩
    rw [hnext i (by omega)]
    exact ih (i + 1) (by omega)

end Chain

end NbIot
