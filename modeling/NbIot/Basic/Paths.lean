import Mathlib.Data.List.DropRight
import Mathlib.Tactic

/-! # Paths

A path is a text in which a separator stands between names. Two names are special: one dot is the
directory itself and two dots are the directory above it. What a path means is what its names
resolve to, read from left to right from some directory; the root has no directory above it, so
that the resolution can fail (`resolve`). Every list of plain names has one canonical text
(`render`), and `names` reads it back.
-/

namespace NbIot.Paths

open List

/-! ## Names, and what they lead to -/

structure Alphabet (α : Type) where
  sep : α
  dot : α
  ne : dot ≠ sep

namespace Alphabet

variable {α : Type} [DecidableEq α] (A : Alphabet α)

/-- The names of a path; separators that follow each other count as one. -/
def names (p : List α) : List (List α) := (p.splitOn A.sep).filter (· ≠ [])

/-- The directory to which the names lead from `dir`, or `none` where some `..` climbs above the
root. -/
def resolve : List (List α) → List (List α) → Option (List (List α))
  | dir, [] => some dir
  | dir, n :: ns =>
    if n = [A.dot] then resolve dir ns
    else if n = [A.dot, A.dot] then
      if dir = [] then none else resolve dir.dropLast ns
    else resolve (dir ++ [n]) ns

/-- Seen from a directory `depth` levels below the root, some `..` of the path climbs above the
root. -/
def Climbs (depth : Nat) (p : List α) : Prop :=
  A.resolve (List.replicate depth []) (A.names p) = none
  deriving Decidable

def render : List (List α) → List α
  | [] => [A.sep]
  | n :: ns => (n :: ns).flatMap (A.sep :: ·)

structure Plain (n : List α) : Prop where
  ne_nil : n ≠ []
  ne_here : n ≠ [A.dot]
  ne_up : n ≠ [A.dot, A.dot]
  noSep : A.sep ∉ n

/-- The text is absolute and has no empty and no special component; a separator at its end would
have an empty one behind it. -/
structure Canonical (p : List α) : Prop where
  absolute : p.head? = some A.sep
  components : p ≠ [A.sep] → ∀ n ∈ p.tail.splitOn A.sep, n ≠ [] ∧ n ≠ [A.dot] ∧ n ≠ [A.dot, A.dot]
  trailing : p ≠ [A.sep] → p.getLast? ≠ some A.sep

/-! ## Names of a text -/

section

variable {A} {n t : List α}

omit [DecidableEq α] in
lemma splitOnP_name {p : α → Bool} (h : ∀ c ∈ n, p c = false) : n.splitOnP p = [n] :=
  splitOnP_eq_singleton h

lemma splitOn_cut (h : A.sep ∉ n) (t : List α) :
    (n ++ A.sep :: t).splitOn A.sep = n :: t.splitOn A.sep := by
  refine splitOnP_append_cons_of_forall_mem (fun c hc => ?_) _ (by simp) t
  simp only [beq_eq_false_iff_ne]
  rintro rfl
  exact h hc

lemma splitOn_name (h : A.sep ∉ n) : n.splitOn A.sep = [n] := by
  refine splitOnP_name fun c hc => ?_
  simp only [beq_eq_false_iff_ne]
  rintro rfl
  exact h hc

@[simp] lemma names_nil : A.names [] = [] := by simp [names]

lemma names_sep (t : List α) : A.names (A.sep :: t) = A.names t := by
  have h := splitOn_cut (A := A) (n := []) (by simp) t
  rw [nil_append] at h
  simp [names, h]

lemma names_cut (h : A.sep ∉ n) (hn : n ≠ []) (t : List α) :
    A.names (n ++ A.sep :: t) = n :: A.names t := by
  simp [names, splitOn_cut h, hn]

lemma names_name (h : A.sep ∉ n) (hn : n ≠ []) : A.names n = [n] := by
  simp [names, splitOn_name h, hn]

lemma names_dropWhile (t : List α) : A.names (t.dropWhile (· = A.sep)) = A.names t := by
  induction t with
  | nil => rfl
  | cons c t ih =>
    by_cases hc : c = A.sep
    · rw [dropWhile_cons_of_pos (by simpa using hc), ih, hc, names_sep]
    rw [dropWhile_cons_of_neg (by simpa using hc)]

lemma ne_nil_of_mem_names (h : n ∈ A.names t) : n ≠ [] := by
  simpa using (mem_filter.mp h).2

lemma notMem_of_mem_splitOn (h : n ∈ t.splitOn A.sep) : A.sep ∉ n := by
  have key : ∀ m : Nat, ∀ t : List α, t.length = m → ∀ n ∈ t.splitOn A.sep, A.sep ∉ n := by
    intro m
    induction m using Nat.strong_induction_on with
    | _ m ih =>
      intro t hlen n hn
      by_cases hmem : A.sep ∈ t
      · -- cut at the first separator
        obtain ⟨a, b, rfl, ha⟩ := eq_append_cons_of_mem hmem
        rw [splitOn_cut ha] at hn
        rcases mem_cons.mp hn with rfl | hn
        · exact ha
        exact ih b.length (by simp at hlen; omega) b rfl n hn
      rw [splitOn_name hmem, mem_singleton] at hn
      rwa [hn]
  exact key t.length t rfl n h

lemma mem_of_mem_names {c : α} (h : n ∈ A.names t) (hc : c ∈ n) : c ∈ t := by
  have hjoin : [A.sep].intercalate (t.splitOn A.sep) = t := intercalate_splitOn A.sep
  rw [← hjoin]
  refine mem_flatten.mpr ⟨n, ?_, hc⟩
  have hn := (mem_filter.mp h).1
  generalize t.splitOn A.sep = l at hn
  induction l with
  | nil => exact hn
  | cons m l ih =>
    cases l with
    | nil => exact hn
    | cons k l =>
      rcases mem_cons.mp hn with rfl | hn
      · exact mem_cons_self
      exact mem_cons_of_mem _ (mem_cons_of_mem _ (ih hn))

lemma notMem_of_mem_names (h : n ∈ A.names t) : A.sep ∉ n :=
  notMem_of_mem_splitOn (mem_filter.mp h).1

end

/-! ## Resolution -/

section

variable {A} {dir dir' ns : List (List α)} {b : List α} {n : List α}

lemma resolve_here (dir ns : List (List α)) : A.resolve dir ([A.dot] :: ns) = A.resolve dir ns := by
  rw [resolve, if_pos rfl]

lemma resolve_up (dir ns : List (List α)) (h : dir ≠ []) :
    A.resolve dir ([A.dot, A.dot] :: ns) = A.resolve dir.dropLast ns := by
  rw [resolve, if_neg (by simp), if_pos rfl, if_neg h]

lemma resolve_above (ns : List (List α)) : A.resolve [] ([A.dot, A.dot] :: ns) = none := by
  rw [resolve, if_neg (by simp), if_pos rfl, if_pos rfl]

lemma resolve_down (h1 : n ≠ [A.dot]) (h2 : n ≠ [A.dot, A.dot])
    (dir ns : List (List α)) : A.resolve dir (n :: ns) = A.resolve (dir ++ [n]) ns := by
  rw [resolve, if_neg h1, if_neg h2]

lemma resolve_plain (h : ∀ n ∈ ns, A.Plain n) : A.resolve dir ns = some (dir ++ ns) := by
  induction ns generalizing dir with
  | nil => simp [resolve]
  | cons n ns ih =>
    have hn := h n mem_cons_self
    rw [resolve_down hn.ne_here hn.ne_up, ih fun m hm => h m (mem_cons_of_mem n hm),
      append_assoc, singleton_append]

lemma mem_of_resolve (h : A.resolve dir ns = some dir') (hn : n ∈ dir') :
    n ∈ dir ∨ (n ∈ ns ∧ n ≠ [A.dot] ∧ n ≠ [A.dot, A.dot]) := by
  induction ns generalizing dir with
  | nil =>
    obtain rfl : dir = dir' := Option.some.inj h
    exact .inl hn
  | cons m ns ih =>
    have lift : n ∈ ns ∧ n ≠ [A.dot] ∧ n ≠ [A.dot, A.dot] →
        n ∈ m :: ns ∧ n ≠ [A.dot] ∧ n ≠ [A.dot, A.dot] :=
      fun hm => ⟨mem_cons_of_mem m hm.1, hm.2⟩
    by_cases h1 : m = [A.dot]
    · subst h1
      rw [resolve_here] at h
      exact (ih h).imp_right lift
    by_cases h2 : m = [A.dot, A.dot]
    · subst h2
      by_cases hd : dir = []
      · rw [hd, resolve_above] at h
        simp at h
      rw [resolve_up dir ns hd] at h
      exact (ih h).imp mem_of_mem_dropLast lift
    rw [resolve_down h1 h2] at h
    rcases ih h with hm | hm
    · rcases mem_append.mp hm with hm | hm
      · exact .inl hm
      obtain rfl := mem_singleton.mp hm
      exact .inr ⟨mem_cons_self, h1, h2⟩
    exact .inr (lift hm)

lemma plain_of_resolve {p : List α} (h : A.resolve [] (A.names p) = some dir) :
    ∀ n ∈ dir, A.Plain n := by
  intro n hn
  rcases mem_of_resolve h hn with hn | ⟨hn, h1, h2⟩
  · simp at hn
  exact ⟨ne_nil_of_mem_names hn, h1, h2, notMem_of_mem_names hn⟩

/-- A resolution that stays inside `dir` is not aware of a directory `b` above it. -/
theorem resolve_under (h : A.resolve dir ns = some dir') (b : List α) :
    A.resolve (b :: dir) ns = some (b :: dir') := by
  induction ns generalizing dir with
  | nil =>
    obtain rfl : dir = dir' := Option.some.inj h
    rfl
  | cons n ns ih =>
    by_cases h1 : n = [A.dot]
    · subst h1
      rw [resolve_here] at h ⊢
      exact ih h
    by_cases h2 : n = [A.dot, A.dot]
    · subst h2
      by_cases hd : dir = []
      · rw [hd, resolve_above] at h
        simp at h
      rw [resolve_up dir ns hd] at h
      rw [resolve_up _ _ (by simp), dropLast_cons_of_ne_nil hd]
      exact ih h
    rw [resolve_down h1 h2] at h ⊢
    exact ih h

end

/-! ## Texts of names -/

section

variable {A} {ns : List (List α)} {p : List α}

omit [DecidableEq α] in
lemma render_ne_nil (h : ns ≠ []) : A.render ns = ns.flatMap (A.sep :: ·) := by
  cases ns with
  | nil => exact absurd rfl h
  | cons n ns => rfl

omit [DecidableEq α] in
lemma head?_render (ns : List (List α)) : (A.render ns).head? = some A.sep := by
  cases ns with
  | nil => rfl
  | cons n ns => rfl

lemma splitOn_flatMap (h : ∀ n ∈ ns, A.sep ∉ n) :
    (ns.flatMap (A.sep :: ·)).splitOn A.sep = [] :: ns := by
  induction ns with
  | nil => exact splitOn_name (by simp)
  | cons n ns ih =>
    have hn := h n mem_cons_self
    have ih := ih fun m hm => h m (mem_cons_of_mem n hm)
    have hcut := splitOn_cut (A := A) (n := []) (by simp) (n ++ ns.flatMap (A.sep :: ·))
    rw [flatMap_cons, cons_append]
    rw [nil_append] at hcut
    rw [hcut]
    cases ns with
    | nil => rw [flatMap_nil, append_nil, splitOn_name hn]
    | cons m ms =>
      -- the next name begins with the separator that ends this one
      rw [flatMap_cons, cons_append] at ih ⊢
      have hcut' := splitOn_cut (A := A) (n := []) (by simp) (m ++ ms.flatMap (A.sep :: ·))
      rw [nil_append] at hcut'
      rw [hcut'] at ih
      rw [splitOn_cut hn, (List.cons.inj ih).2]

lemma names_render (h : ∀ n ∈ ns, A.Plain n) : A.names (A.render ns) = ns := by
  by_cases hns : ns = []
  · subst hns
    rw [render, names_sep, names_nil]
  rw [names, render_ne_nil hns, splitOn_flatMap fun n hn => (h n hn).noSep]
  rw [filter_cons_of_neg (by simp)]
  exact filter_eq_self.mpr fun n hn => by simpa using (h n hn).ne_nil

omit [DecidableEq α] in
lemma render_inj (h : ∀ n ∈ ns, n ≠ []) (heq : A.render ns = [A.sep]) : ns = [] := by
  cases ns with
  | nil => rfl
  | cons n ns =>
    have hn : n ++ ns.flatMap (A.sep :: ·) = [] := (List.cons.inj heq).2
    exact absurd (append_eq_nil_iff.mp hn).1 (h n mem_cons_self)

omit [DecidableEq α] in
lemma getLast?_flatMap {n : List α} (hn : n ≠ []) (ns : List (List α)) :
    ((ns ++ [n]).flatMap (A.sep :: ·)).getLast? = n.getLast? := by
  rw [flatMap_append, flatMap_singleton, getLast?_append, getLast?_cons]
  cases h : n.getLast? with
  | none => exact absurd (getLast?_eq_none_iff.mp h) hn
  | some c => rfl

lemma canonical_render (h : ∀ n ∈ ns, A.Plain n) : A.Canonical (A.render ns) := by
  refine ⟨head?_render ns, ?_, ?_⟩
  · intro hne n hn
    have hns : ns ≠ [] := by
      rintro rfl
      exact hne rfl
    have hsplit := splitOn_flatMap fun n hn => (h n hn).noSep
    rw [← render_ne_nil hns] at hsplit
    obtain ⟨t, ht⟩ : ∃ t, A.render ns = A.sep :: t := by
      cases ns with
      | nil => exact ⟨[], rfl⟩
      | cons n ns => exact ⟨_, rfl⟩
    have hcut := splitOn_cut (A := A) (n := []) (by simp) t
    rw [nil_append, ← ht, hsplit] at hcut
    rw [ht, tail_cons, ← (List.cons.inj hcut).2] at hn
    have hp := h n hn
    exact ⟨hp.ne_nil, hp.ne_here, hp.ne_up⟩
  intro hne hlast
  rcases eq_nil_or_concat ns with rfl | ⟨ms, n, rfl⟩
  · exact hne rfl
  have hp := h n (by simp)
  rw [render_ne_nil (by simp), concat_eq_append, getLast?_flatMap hp.ne_nil] at hlast
  exact hp.noSep (mem_of_getLast? hlast)

lemma exists_of_canonical (h : A.Canonical p) : ∃ ns, (∀ n ∈ ns, A.Plain n) ∧ p = A.render ns := by
  obtain ⟨t, rfl⟩ : ∃ t, p = A.sep :: t := by
    cases p with
    | nil => exact absurd h.absolute (by simp)
    | cons c t =>
      obtain rfl : c = A.sep := by simpa using h.absolute
      exact ⟨t, rfl⟩
  by_cases ht : t = []
  · subst ht
    exact ⟨[], by simp, rfl⟩
  have hne : A.sep :: t ≠ [A.sep] := by simpa using ht
  refine ⟨t.splitOn A.sep, ?_, ?_⟩
  · intro n hn
    obtain ⟨h0, h1, h2⟩ := h.components hne n (by exact hn)
    exact ⟨h0, h1, h2, notMem_of_mem_splitOn hn⟩
  have hjoin : ∀ ns : List (List α), ns ≠ [] →
      A.sep :: [A.sep].intercalate ns = ns.flatMap (A.sep :: ·) := by
    intro ns hns
    induction ns with
    | nil => exact absurd rfl hns
    | cons n ns ih =>
      cases ns with
      | nil => simp
      | cons m ms =>
        rw [flatMap_cons, ← ih (by simp)]
        simp
  have hsplit : t.splitOn A.sep ≠ [] := splitOnP_ne_nil _ _
  rw [render_ne_nil hsplit, ← hjoin _ hsplit, intercalate_splitOn]

end

end Alphabet

end NbIot.Paths
