import NbIot.Basic.Memory
import NbIot.Basic.Ring

/-! # Records of words in memory

A record of `n` words at the address `a` has its word `i` at `a + 4 * i`. What a program does that
links records which do not overlap (`Sites`) is said on a table `F` of words: `View` relates a
memory to the table it shows at the sites, and to the memory before, which it may differ from in the
region of the sites only.
-/

namespace NbIot

/-! ## Words in memory -/

namespace Mem

/-- The word `i` of the record at `a`. -/
def word (m : Mem) (a i : Nat) : Nat := m.load (a + 4 * i) 4

def setWord (m : Mem) (a i v : Nat) : Mem := m.store (a + 4 * i) 4 v

lemma word_lt (m : Mem) (a i : Nat) : m.word a i < wordSize := m.load_lt (a + 4 * i) 4

lemma word_congr {m m' : Mem} {a n i : Nat} (h : Agree m m' a (a + 4 * n)) (hi : i < n) :
    m.word a i = m'.word a i :=
  load_congr (h.mono (by omega) (by omega))

lemma agree_setWord (m : Mem) {a i n : Nat} (v lo hi : Nat) (hin : i < n)
    (h : hi ≤ a ∨ a + 4 * n ≤ lo) : Agree m (m.setWord a i v) lo hi :=
  agree_store m _ 4 v lo hi (by omega)

lemma word_setWord_self (m : Mem) (a i : Nat) {v : Nat} (hv : v < wordSize) :
    (m.setWord a i v).word a i = v :=
  (load_store m _ 4 v).trans (Nat.mod_eq_of_lt hv)

lemma word_setWord_of_ne (m : Mem) (a v : Nat) {i j : Nat} (h : j ≠ i) :
    (m.setWord a i v).word a j = m.word a j :=
  load_store_of_disjoint m v (by omega)

/-- Take the record `t` out of the list that runs through the words `i` and `j`. -/
def unlink (m : Mem) (t i j : Nat) : Mem :=
  let m := m.setWord (m.word t i) j (m.word t j)
  m.setWord (m.word t j) i (m.word t i)

/-- Put the record `t` behind `h`. -/
def linkAfter (m : Mem) (h t i j : Nat) : Mem :=
  let m := m.setWord t i (m.word h i)
  let m := m.setWord t j h
  let m := m.setWord (m.word h i) j t
  m.setWord h i t

end Mem

attribute [irreducible] Mem.word Mem.setWord

/-! ## Fields of records -/

/-- The table `F` with the word `i` of the record `a` changed to `v`. -/
def put (F : Nat → Nat → Nat) (a i v : Nat) : Nat → Nat → Nat :=
  fun b j => if b = a ∧ j = i then v else F b j

section

variable (F : Nat → Nat → Nat) {a b i j : Nat} (v : Nat)

@[simp] lemma put_self : put F a i v a i = v := if_pos ⟨rfl, rfl⟩

lemma put_of_ne (h : b ≠ a) : put F a i v b j = F b j := if_neg fun hc => h hc.1

lemma put_of_ne_word (h : j ≠ i) : put F a i v b j = F b j := if_neg fun hc => h hc.2

lemma put_comm {w : Nat} (h : i ≠ j) : put (put F a i v) b j w = put (put F b j w) a i v := by
  funext c k
  simp only [put]
  by_cases hk : k = i
  · simp [hk, h]
  simp [hk]

end

/-- `p` and `q` linked to each other. -/
def bridge (F : Nat → Nat → Nat) (p q i j : Nat) : Nat → Nat → Nat :=
  put (put F q j p) p i q

/-- `t` linked between `p` and `q`. -/
def wedge (F : Nat → Nat → Nat) (p t q i j : Nat) : Nat → Nat → Nat :=
  put (put (put (put F t i q) t j p) q j t) p i t

section

variable (F : Nat → Nat → Nat) {p q t i j b k : Nat}

lemma bridge_forward (hij : i ≠ j) : bridge F p q i j b i = if b = p then q else F b i := by
  simp [bridge, put, hij]

lemma bridge_back (hij : i ≠ j) : bridge F p q i j b j = if b = q then p else F b j := by
  simp [bridge, put, hij.symm]

lemma bridge_other (hi : k ≠ i) (hj : k ≠ j) : bridge F p q i j b k = F b k := by
  simp [bridge, put, hi, hj]

lemma bridge_comm (hij : i ≠ j) : put (put F p i q) q j p = bridge F p q i j := by
  funext b k
  simp only [bridge, put]
  by_cases hk : k = i
  · simp [hk, hij]
  simp [hk]

lemma wedge_forward (hij : i ≠ j) : wedge F p t q i j b i
    = if b = p then t else if b = t then q else F b i := by
  simp [wedge, put, hij]

lemma wedge_back (hij : i ≠ j) : wedge F p t q i j b j
    = if b = q then t else if b = t then p else F b j := by
  simp [wedge, put, hij.symm]

lemma wedge_other (hi : k ≠ i) (hj : k ≠ j) : wedge F p t q i j b k = F b k := by
  simp [wedge, put, hi, hj]

end

/-! ## Circles of records -/

def Circle {N : Type} (next prev : N → N) : List N → Prop
  | [] => False
  | h :: ms => Ring next prev h ms

namespace Circle

variable {N : Type} {next prev next' prev' : N → N} {l : List N}

lemma nodup (hc : Circle next prev l) : l.Nodup := by
  cases l with
  | nil => exact hc.elim
  | cons h ms => exact Ring.nodup hc

lemma congr (hc : Circle next prev l) (hn : ∀ a ∈ l, next' a = next a)
    (hp : ∀ a ∈ l, prev' a = prev a) : Circle next' prev' l := by
  cases l with
  | nil => exact hc.elim
  | cons h ms => exact Ring.congr hc hn hp

lemma exists_seam (pre : List N) (p : N) : ∃ h as, before h as = p ∧
    ∀ (l : List N), pre ++ p :: l = h :: (as ++ l) := by
  cases pre with
  | nil => exact ⟨p, [], rfl, fun l => rfl⟩
  | cons h pre => exact ⟨h, pre ++ [p], before_concat h pre p, fun l => by simp⟩

lemma neighbours {pre post : List N} {p q : N} (hc : Circle next prev (pre ++ p :: q :: post)) :
    next p = q ∧ prev q = p := by
  obtain ⟨h, as, hp, hl⟩ := exists_seam pre p
  rw [hl] at hc
  have hseam := Ring.seam hc
  rwa [hp] at hseam

lemma closed {pre : List N} {h z : N} (hc : Circle next prev (h :: (pre ++ [z]))) :
    next z = h ∧ prev h = z := by
  have hlast : before h (pre ++ [z]) = z := before_concat h pre z
  have hn : next z = behind h [] := (Ring.neighbours hc).2
  exact ⟨by exact hn, (Ring.prev_head hc).trans hlast⟩

variable {F : Nat → Nat → Nat} {pre post : List Nat} {p t q i j : Nat}

lemma bridge (hij : i ≠ j) (hc : Circle (F · i) (F · j) (pre ++ p :: t :: q :: post)) :
    Circle (bridge F p q i j · i) (bridge F p q i j · j) (pre ++ p :: q :: post) := by
  obtain ⟨h, as, hp, hl⟩ := exists_seam pre p
  rw [hl] at hc ⊢
  refine Ring.erase hc (fun a _ ha => ?_) (fun a _ ha => ?_) ?_ ?_
  · rw [bridge_forward F hij, if_neg (by rwa [hp] at ha)]
  · rw [bridge_back F hij, if_neg (by rwa [behind_cons] at ha)]
  · rw [bridge_forward F hij, hp, if_pos rfl, behind_cons]
  rw [bridge_back F hij, hp, behind_cons, if_pos rfl]

lemma wedge (hij : i ≠ j) (hc : Circle (F · i) (F · j) (pre ++ p :: q :: post))
    (ht : t ∉ pre ++ p :: q :: post) :
    Circle (wedge F p t q i j · i) (wedge F p t q i j · j) (pre ++ p :: t :: q :: post) := by
  obtain ⟨h, as, hp, hl⟩ := exists_seam pre p
  rw [hl] at hc ht ⊢
  have hne : ∀ a ∈ h :: (as ++ q :: post), a ≠ t := fun a ha => ne_of_mem_of_not_mem ha ht
  have hpt : p ≠ t := by
    have hmem := List.mem_append_left (q :: post) (before_mem h as)
    rw [hp] at hmem
    exact hne p hmem
  have hqt : q ≠ t := hne q (by simp)
  refine Ring.splice hc ht (fun a hm ha => ?_) (fun a hm ha => ?_) ?_ ?_ ?_ ?_
  · rw [wedge_forward F hij, if_neg (by rwa [hp] at ha), if_neg (hne a hm)]
  · rw [wedge_back F hij, if_neg (by rwa [behind_cons] at ha), if_neg (hne a hm)]
  · rw [wedge_forward F hij, hp, if_pos rfl]
  · rw [wedge_back F hij, hp, if_neg hqt.symm, if_pos rfl]
  · rw [wedge_forward F hij, behind_cons, if_neg hpt.symm, if_pos rfl]
  rw [wedge_back F hij, behind_cons, if_pos rfl]

end Circle

namespace Ring

variable {F : Nat → Nat → Nat} {h t i j : Nat} {as bs ms : List Nat}

lemma bridge (hij : i ≠ j) (hr : Ring (F · i) (F · j) h (as ++ t :: bs)) :
    Ring (bridge F (F t j) (F t i) i j · i) (bridge F (F t j) (F t i) i j · j) h (as ++ bs) := by
  obtain ⟨hp, hn⟩ := hr.neighbours
  simp only [hp, hn]
  refine hr.erase (fun a _ ha => ?_) (fun a _ ha => ?_) ?_ ?_
  · rw [bridge_forward F hij, if_neg ha]
  · rw [bridge_back F hij, if_neg ha]
  · rw [bridge_forward F hij, if_pos rfl]
  rw [bridge_back F hij, if_pos rfl]

lemma wedge (hij : i ≠ j) (hr : Ring (F · i) (F · j) h ms) (ht : t ∉ h :: ms) :
    Ring (wedge F h t (F h i) i j · i) (wedge F h t (F h i) i j · j) h (t :: ms) := by
  have hn := hr.next_head
  have hne : ∀ a ∈ h :: ms, a ≠ t := fun a ha => ne_of_mem_of_not_mem ha ht
  have hbehind : behind h ms ≠ t := hne _ (behind_mem h ms)
  have hr' : Ring (F · i) (F · j) h ([] ++ ms) := hr
  have hht : h ≠ t := hne h List.mem_cons_self
  simp only [hn]
  refine hr'.splice ht (fun a hm ha => ?_) (fun a hm ha => ?_) ?_ ?_ ?_ ?_
  · rw [wedge_forward F hij, if_neg (by rwa [before_nil] at ha), if_neg (hne a hm)]
  · rw [wedge_back F hij, if_neg ha, if_neg (hne a hm)]
  · rw [wedge_forward F hij, before_nil, if_pos rfl]
  · rw [wedge_back F hij, if_neg hbehind.symm, if_pos rfl, before_nil]
  · rw [wedge_forward F hij, if_neg hht.symm, if_pos rfl]
  rw [wedge_back F hij, if_pos rfl]

end Ring

/-! ## Lists in memory -/

/-- The addresses `S` of records of `n` words: they do not overlap, and they lie in the region
`R`. -/
structure Sites (n : Nat) (R : Nat → Prop) (S : List Nat) : Prop where
  apart : ∀ a ∈ S, ∀ b ∈ S, a ≠ b → a + 4 * n ≤ b ∨ b + 4 * n ≤ a
  small : ∀ a ∈ S, a < wordSize
  region : ∀ a ∈ S, ∀ x, a ≤ x → x < a + 4 * n → R x

/-- `m` shows the table `F` at the sites, and differs from `m₀` in the region only. -/
structure View (n : Nat) (R : Nat → Prop) (S : List Nat) (m₀ m : Mem) (F : Nat → Nat → Nat) :
    Prop where
  word_eq : ∀ a ∈ S, ∀ i < n, m.word a i = F a i
  frame : ∀ x, ¬ R x → m x = m₀ x

lemma View.refl (n : Nat) (R : Nat → Prop) (S : List Nat) (m : Mem) : View n R S m m m.word :=
  ⟨fun _ _ _ _ => rfl, fun _ _ => rfl⟩

namespace View

variable {n : Nat} {R : Nat → Prop} {S : List Nat} {m₀ m : Mem} {F : Nat → Nat → Nat}
  {a h t i j v : Nat}

lemma set (hv : View n R S m₀ m F) (hs : Sites n R S) (ha : a ∈ S) (hi : i < n)
    (hlt : v < wordSize) : View n R S m₀ (m.setWord a i v) (put F a i v) := by
  constructor
  · intro b hb k hk
    by_cases hba : b = a
    · subst hba
      by_cases hki : k = i
      · rw [hki, put_self, Mem.word_setWord_self m b i hlt]
      rw [put_of_ne_word F v hki, Mem.word_setWord_of_ne m b v hki, hv.word_eq b hb k hk]
    have hagree : Mem.Agree m (m.setWord a i v) b (b + 4 * n) :=
      m.agree_setWord v _ _ hi (hs.apart b hb a ha hba)
    rw [put_of_ne F v hba, ← Mem.word_congr hagree hk, hv.word_eq b hb k hk]
  intro x hx
  have hout : x < a ∨ a + 4 * n ≤ x := by
    by_contra hc
    exact hx (hs.region a ha x (by omega) (by omega))
  have hagree : Mem.Agree m (m.setWord a i v) x (x + 1) := m.agree_setWord v _ _ hi (by omega)
  rw [← hagree x (by omega) (by omega), hv.frame x hx]

lemma unlink (hv : View n R S m₀ m F) (hs : Sites n R S) (hi : i < n) (hj : j < n)
    (hij : i ≠ j) (ht : t ∈ S) (hp : F t j ∈ S) (hq : F t i ∈ S) :
    View n R S m₀ (m.unlink t i j) (bridge F (F t j) (F t i) i j) := by
  have h1 := hv.set hs hq hj (hs.small _ hp)
  -- the first write leaves `t`'s own links as they were
  have hback : put F (F t i) j (F t j) t j = F t j := by
    by_cases he : t = F t i
    · rw [← he, put_self]
    exact put_of_ne F _ he
  have hforward : put F (F t i) j (F t j) t i = F t i := put_of_ne_word F _ hij
  have h2 := h1.set hs hp hi (hs.small _ hq)
  simp only [Mem.unlink, hv.word_eq t ht i hi, hv.word_eq t ht j hj]
  rw [h1.word_eq t ht i hi, h1.word_eq t ht j hj, hback, hforward]
  exact h2

/-- The code that puts a record behind another one links it to both its new neighbours. -/
theorem linkAfter (hv : View n R S m₀ m F) (hs : Sites n R S) (hi : i < n) (hj : j < n)
    (hh : h ∈ S) (ht : t ∈ S) (hht : h ≠ t) (hq : F h i ∈ S) :
    View n R S m₀ (m.linkAfter h t i j) (wedge F h t (F h i) i j) := by
  have h1 := hv.set hs ht hi (hs.small _ hq)
  have h2 := h1.set hs ht hj (hs.small _ hh)
  have hnext : put (put F t i (F h i)) t j h h i = F h i := by
    rw [put_of_ne _ _ hht, put_of_ne _ _ hht]
  have h3 := h2.set hs hq hj (hs.small _ ht)
  simp only [Mem.linkAfter, hv.word_eq h hh i hi]
  rw [h2.word_eq h hh i hi, hnext]
  exact h3.set hs hh hi (hs.small _ ht)

end View

end NbIot
