import NbIot.Kservice.Strings

/-! # The order of strings

`rt_strncmp` against `rt_strcmp`. Both stop at the first index at which the strings differ or end,
and return the difference of the two characters there, `rt_strncmp` as a `signed char`. A plain
`char` is signed.
-/

namespace NbIot.Kservice

/-! ## `rt_strcmp` -/

/-- The value of a plain `char`. -/
def char (c : UInt8) : Int := c.toInt8.toInt

/-- The loop of `rt_strcmp` from the index `i` on, for at most so many turns. -/
def strcmpFrom (cs ct : Nat → UInt8) (i : Nat) : Nat → Option Int
  | 0 => none
  | fuel + 1 =>
    if cs i ≠ 0 ∧ cs i = ct i then strcmpFrom cs ct (i + 1) fuel
    else some (char (cs i) - char (ct i))

def rtStrcmp (cs ct : Nat → UInt8) (fuel : Nat) : Option Int := strcmpFrom cs ct 0 fuel

/-! ## Where the loops stop -/

/-- A string of length `l` at `s`, with bytes of an alphabet. -/
structure IsString (B : UInt8 → Prop) (s : Nat → UInt8) (l : Nat) : Prop where
  zero : s l = 0
  mem : ∀ i < l, s i ≠ 0 ∧ B (s i)

/-- From the index `i` on the loops stop after `k` turns. -/
structure Stops (cs ct : Nat → UInt8) (i k : Nat) : Prop where
  before : ∀ j < k, cs (i + j) = ct (i + j) ∧ cs (i + j) ≠ 0
  last : cs (i + k) ≠ ct (i + k) ∨ cs (i + k) = 0

variable {cs ct cu : Nat → UInt8} {B : UInt8 → Prop} {i k l n : Nat}

lemma Stops.symm (h : Stops cs ct i k) : Stops ct cs i k := by
  refine ⟨fun j hj => ?_, ?_⟩
  · obtain ⟨heq, hne⟩ := h.before j hj
    exact ⟨heq.symm, heq ▸ hne⟩
  by_cases heq : cs (i + k) = ct (i + k)
  · exact .inr (heq ▸ h.last.resolve_left (not_not_intro heq))
  exact .inl (Ne.symm heq)

lemma Stops.tail (h : Stops cs ct i (k + 1)) : Stops cs ct (i + 1) k := by
  have hshift : ∀ j, i + 1 + j = i + (j + 1) := fun j => by omega
  refine ⟨fun j hj => ?_, ?_⟩
  · rw [hshift]
    exact h.before (j + 1) (by omega)
  rw [hshift]
  exact h.last

lemma IsString.stops (h : IsString B cs l) (ct : Nat → UInt8) : ∃ k ≤ l, Stops cs ct 0 k := by
  have hex : ∃ k, cs (0 + k) ≠ ct (0 + k) ∨ cs (0 + k) = 0 := ⟨l, Or.inr (by rw [zero_add, h.zero])⟩
  refine ⟨Nat.find hex, Nat.find_min' hex (.inr (by rw [zero_add, h.zero])), ?_, Nat.find_spec hex⟩
  intro j hj
  simpa [not_or] using Nat.find_min hex hj

/-- Both loops return the difference of the characters at which they stop. -/
theorem Stops.results (h : Stops cs ct i k) (hk : k < n) :
    strncmpFrom cs ct i n = cs (i + k) - ct (i + k) ∧
      strcmpFrom cs ct i n = some (char (cs (i + k)) - char (ct (i + k))) := by
  obtain ⟨n, rfl⟩ : ∃ m, n = m + 1 := ⟨n - 1, by omega⟩
  rw [strncmpFrom, strcmpFrom]
  induction k generalizing i n with
  | zero =>
    have hstop : ¬ (cs i ≠ 0 ∧ cs i = ct i) := fun hc => h.last.elim (· hc.2) hc.1
    have hlast : cs i - ct i ≠ 0 ∨ cs i = 0 := h.last.imp_left byte_sub_ne_zero
    rw [if_pos hlast, if_neg hstop]
    exact ⟨rfl, rfl⟩
  | succ k ih =>
    obtain ⟨m, rfl⟩ : ∃ m, n = m + 1 := ⟨n - 1, by omega⟩
    obtain ⟨heq, hne⟩ := h.before 0 (by omega)
    rw [add_zero] at heq hne
    rw [if_neg (by simp [← heq, hne]), if_pos ⟨hne, heq⟩, show i + (k + 1) = i + 1 + k by omega,
      strncmpFrom, strcmpFrom]
    exact ih h.tail m (by omega)

lemma byte_sub_toInt (x y : UInt8) : (x - y).toInt8.toInt = Int.bmod (char x - char y) 256 :=
  BitVec.toInt_sub (x := x.toBitVec) (y := y.toBitVec)

lemma Stops.rtStrncmp_eq (h : Stops cs ct 0 k) (hk : k < n) :
    rtStrncmp cs ct n = Int.bmod (char (cs k) - char (ct k)) 256 := by
  rw [rtStrncmp, (h.results hk).1, byte_sub_toInt, zero_add]

lemma Stops.rtStrcmp_eq (h : Stops cs ct 0 k) (hk : k < n) :
    rtStrcmp cs ct n = some (char (cs k) - char (ct k)) := by
  rw [rtStrcmp, (h.results hk).2, zero_add]

lemma IsString.le_of_stops (h : IsString B cs l) (hstops : Stops cs ct 0 k) : k ≤ l := by
  by_contra hlt
  have hne := (hstops.before l (by omega)).2
  rw [zero_add] at hne
  exact hne h.zero

/-! ## Alphabets on which the two agree -/

/-- Any two characters of strings over the alphabet, the final zero included, differ by at most
127. -/
def Near (B : UInt8 → Prop) : Prop :=
  ∀ x y, x = 0 ∨ B x → y = 0 ∨ B y → char x - char y ≤ 127

lemma IsString.byte (h : IsString B cs l) (hk : k ≤ l) : cs k = 0 ∨ B (cs k) := by
  rcases Nat.lt_or_eq_of_le hk with hlt | rfl
  · exact .inr (h.mem k hlt).2
  exact .inl h.zero

/-- For such strings nothing is lost in the `signed char`. -/
theorem Stops.exact {l' : Nat} (h : Stops cs ct 0 k) (hB : Near B)
    (hs : IsString B cs l) (ht : IsString B ct l') (hl : l < n) :
    rtStrncmp cs ct n = char (cs k) - char (ct k) := by
  have hk := hs.le_of_stops h
  have hx := hs.byte hk
  have hy := ht.byte (ht.le_of_stops h.symm)
  have h1 := hB _ _ hx hy
  have h2 := hB _ _ hy hx
  rw [h.rtStrncmp_eq (by omega), Int.bmod_eq_of_le (by omega) (by omega)]

/-- `rt_strncmp(a, b, n)` and `rt_strcmp(a, b)` have the same sign, `rt_strncmp(b, a, n)` has the
opposite one. -/
def Consistent (a b : Nat → UInt8) (n : Nat) : Prop :=
  (∃ fuel r, rtStrcmp a b fuel = some r ∧ (rtStrncmp a b n).sign = r.sign) ∧
    (rtStrncmp b a n).sign = -(rtStrncmp a b n).sign

/-- `rt_strncmp(·, ·, n) < 0` is transitive in `a`, `b`, `c`. -/
def Transitive (a b c : Nat → UInt8) (n : Nat) : Prop :=
  rtStrncmp a b n < 0 → rtStrncmp b c n < 0 → rtStrncmp a c n < 0

lemma consistent_of_near {l' : Nat} (hB : Near B) (hs : IsString B cs l)
    (ht : IsString B ct l') (hl : l < n) (hl' : l' < n) : Consistent cs ct n := by
  obtain ⟨k, hk, h⟩ := hs.stops ct
  refine ⟨⟨n, _, h.rtStrcmp_eq (by omega), ?_⟩, ?_⟩
  · rw [h.exact hB hs ht hl]
  rw [h.exact hB hs ht hl, h.symm.exact hB ht hs hl', ← Int.sign_neg, Int.neg_sub]

lemma transitive_of_near {l' l'' : Nat} (hB : Near B) (hs : IsString B cs l)
    (ht : IsString B ct l') (hu : IsString B cu l'') (hl : l < n) (hl' : l' < n) :
    Transitive cs ct cu n := by
  intro h1 h2
  obtain ⟨i, -, hi⟩ := hs.stops ct
  obtain ⟨j, -, hj⟩ := ht.stops cu
  rw [hi.exact hB hs ht hl] at h1
  rw [hj.exact hB ht hu hl'] at h2
  -- the first and the last string differ where one of them differs from the second
  have hbefore : ∀ k < min i j, cs (0 + k) = cu (0 + k) ∧ cs (0 + k) ≠ 0 := fun k hk =>
    ⟨(hi.before k (by omega)).1.trans (hj.before k (by omega)).1, (hi.before k (by omega)).2⟩
  have hlt : char (cs (min i j)) < char (cu (min i j)) := by
    rcases Nat.lt_trichotomy i j with hij | rfl | hij
    · have heq := (hj.before i hij).1
      rw [zero_add] at heq
      rw [min_eq_left hij.le, ← heq]
      omega
    · rw [Nat.min_self]
      omega
    have heq := (hi.before j hij).1
    rw [zero_add] at heq
    rw [min_eq_right hij.le, heq]
    omega
  have hstops : Stops cs cu 0 (min i j) := by
    refine ⟨hbefore, Or.inl fun heq => ?_⟩
    rw [zero_add] at heq
    rw [heq] at hlt
    exact lt_irrefl _ hlt
  rw [hstops.exact hB hs hu hl]
  omega

/-- The string of one character, or of none. -/
def single (c : UInt8) (i : Nat) : UInt8 := if i = 0 then c else 0

lemma isString_single {c : UInt8} (hc : c = 0 ∨ B c) : ∃ l ≤ 1, IsString B (single c) l := by
  by_cases h0 : c = 0
  · exact ⟨0, by omega, h0, fun i hi => absurd hi (by omega)⟩
  refine ⟨1, le_rfl, rfl, fun i hi => ?_⟩
  rw [Nat.lt_one_iff.mp hi]
  exact ⟨h0, hc.resolve_left h0⟩

/-- **The order of strings** over an alphabet is consistent iff its characters are near to each
other and to zero. -/
theorem order_iff (B : UInt8 → Prop) :
    ((∀ a b l l' n, IsString B a l → IsString B b l' → l < n → l' < n → Consistent a b n) ∧
      ∀ a b c l l' l'' n, IsString B a l → IsString B b l' → IsString B c l'' → l < n → l' < n →
        l'' < n → Transitive a b c n) ↔ Near B := by
  constructor
  · intro h x y hx hy
    by_contra hfar
    have hlow : -128 ≤ char y := Int8.le_toInt _
    have hhigh : char x < 128 := Int8.toInt_lt _
    -- the strings of these two characters
    obtain ⟨l, hl, ha⟩ := isString_single hx
    obtain ⟨l', hl', hb⟩ := isString_single hy
    have hne : x ≠ y := by
      rintro rfl
      omega
    have hstops : Stops (single x) (single y) 0 0 := ⟨fun j hj => absurd hj (by omega), Or.inl hne⟩
    obtain ⟨⟨fuel, r, hr, hsign⟩, -⟩ := h.1 _ _ l l' 2 ha hb (by omega) (by omega)
    cases fuel with
    | zero => cases hr
    | succ fuel =>
      have hwrap : Int.bmod (char x - char y) 256 = char x - char y - 256 := by
        rw [Int.bmod_def]
        omega
      rw [hstops.rtStrcmp_eq (Nat.succ_pos _)] at hr
      cases hr
      rw [hstops.rtStrncmp_eq (by omega)] at hsign
      simp only [single, if_true, hwrap] at hsign
      rw [Int.sign_eq_neg_one_of_neg (by omega), Int.sign_eq_one_of_pos (by omega)] at hsign
      exact absurd hsign (by decide)
  exact fun hB => ⟨fun a b l l' n ha hb hl hl' => consistent_of_near hB ha hb hl hl',
    fun a b c l l' l'' n ha hb hc hl hl' _ => transitive_of_near hB ha hb hc hl hl'⟩

/-- The first character is the larger one, and `rt_strncmp` is negative. -/
theorem strncmp_wraps : rtStrcmp (single 0x7f) (single 0x80) 1 = some 255 ∧
    rtStrncmp (single 0x7f) (single 0x80) 2 = -1 ∧ ¬ Consistent (single 0x7f) (single 0x80) 2 := by
  have hneg : rtStrncmp (single 0x7f) (single 0x80) 2 = -1 := by decide
  refine ⟨by decide, hneg, fun ⟨⟨fuel, r, hr, hsign⟩, _⟩ => ?_⟩
  cases fuel with
  | zero => cases hr
  | succ fuel =>
    obtain rfl : (255 : Int) = r := Option.some.inj hr
    rw [hneg] at hsign
    exact absurd hsign (by decide)

end NbIot.Kservice
