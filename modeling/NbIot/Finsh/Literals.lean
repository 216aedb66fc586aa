import NbIot.Finsh.Token

/-! # Number literals

The loop over a hexadecimal number takes every letter, the suffix too, and behind a single `0` no
suffix is looked for.
-/

namespace NbIot.Finsh.Lexer

/-! ## Literals and their values -/

/-- The value of a digit of any base. -/
def digitOf (c : UInt8) : Nat :=
  if 'a'.toUInt8 ≤ c ∧ c ≤ 'f'.toUInt8 then (c - 'a'.toUInt8 + 10).toNat
  else if 'A'.toUInt8 ≤ c ∧ c ≤ 'F'.toUInt8 then (c - 'A'.toUInt8 + 10).toNat
  else (c - '0'.toUInt8).toNat

/-- The number that the digits denote in base `b`. -/
def numberOf (b : Nat) (ds : List UInt8) : Nat := ds.foldl (fun v c => v * b + digitOf c) 0

inductive Form where
  | zero
  | dec
  | hex
  | oct
  | bin
  deriving DecidableEq

def isBinary (c : UInt8) : Bool := c == '0'.toUInt8 || c == '1'.toUInt8

inductive Literal : Form → List UInt8 → Nat → Prop
  | zero : Literal .zero ['0'.toUInt8] 0
  | dec (d : UInt8) (ds : List UInt8) (h : ∀ c ∈ d :: ds, isDigit c) (h0 : d ≠ '0'.toUInt8) :
    Literal .dec (d :: ds) (numberOf 10 (d :: ds))
  | hex (x : UInt8) (ds : List UInt8) (hx : x = 'x'.toUInt8 ∨ x = 'X'.toUInt8) (hds : ds ≠ [])
    (h : ∀ c ∈ ds, isXdigit c) : Literal .hex ('0'.toUInt8 :: x :: ds) (numberOf 16 ds)
  | oct (ds : List UInt8) (hds : ds ≠ []) (h : ∀ c ∈ ds, isOctal c) :
    Literal .oct ('0'.toUInt8 :: ds) (numberOf 8 ds)
  | bin (x : UInt8) (ds : List UInt8) (hx : x = 'b'.toUInt8 ∨ x = 'B'.toUInt8) (hds : ds ≠ [])
    (h : ∀ c ∈ ds, isBinary c) : Literal .bin ('0'.toUInt8 :: x :: ds) (numberOf 2 ds)

def isAlnum (c : UInt8) : Bool := isDigit c || isAlpha c

def isSuffix (c : UInt8) : Bool := c == 'l'.toUInt8 || c == 'L'.toUInt8

/-! ## Digits -/

@[mk_iff] structure CharFacts (c : UInt8) : Prop where
  separator : isSeparator c → isAlnum c = false
  digit : isDigit c → isAlnum c ∧ digitOf c = c.toNat - '0'.toNat
  hex : isXdigit c → isAlnum c ∧ digitOf c < 2 ^ 4
  octal : isOctal c → (isDigit c ∧ digitOf c < 2 ^ 3) ∧
    ¬ (c = 'x'.toUInt8 ∨ c = 'X'.toUInt8) ∧ ¬ (c = 'b'.toUInt8 ∨ c = 'B'.toUInt8)
  binary : isBinary c → isDigit c ∧ digitOf c < 2 ^ 1
  suffix : isSuffix c → isAlnum c ∧ isDigit c = false
  behind : isAlnum c = false ∨ isSuffix c → ¬ (c = 'x'.toUInt8 ∨ c = 'X'.toUInt8) ∧
    ¬ (c = 'b'.toUInt8 ∨ c = 'B'.toUInt8) ∧ ¬ isOctal c

lemma charFacts (c : UInt8) : CharFacts c := by
  obtain ⟨n, rfl⟩ : ∃ n : Fin 256, UInt8.ofNat n = c := ⟨⟨c.toNat, c.toNat_lt⟩, UInt8.ofNat_toNat⟩
  revert n
  simp only [charFacts_iff]
  decide +kernel

lemma specDigit_eq {shift : Nat} {c : UInt8} (h : digitOf c < 2 ^ shift) (a : Nat) :
    specDigit shift (BitVec.ofNat 32 a) c = BitVec.ofNat 32 (a * 2 ^ shift + digitOf c) := by
  have hdigit : specDigit shift (BitVec.ofNat 32 a) c =
      BitVec.ofNat 32 a <<< shift ||| BitVec.ofNat 32 (digitOf c) := by
    unfold specDigit digitOf
    split
    · rfl
    split <;> rfl
  rw [hdigit]
  apply BitVec.eq_of_toNat_eq
  simp only [BitVec.toNat_or, BitVec.toNat_shiftLeft, BitVec.toNat_ofNat]
  rw [← Nat.or_mod_two_pow, ← Nat.shiftLeft_add_eq_or_of_lt h, Nat.shiftLeft_eq, Nat.add_mod,
    Nat.mod_mul_mod, ← Nat.add_mod]

/-- A loop that adds digits to a word. -/
theorem foldl_digits {f : BitVec 32 → UInt8 → BitVec 32} {b : Nat} {ds : List UInt8}
    (h : ∀ c ∈ ds, ∀ a, f (BitVec.ofNat 32 a) c = BitVec.ofNat 32 (a * b + digitOf c)) (a : Nat) :
    ds.foldl f (BitVec.ofNat 32 a) =
      BitVec.ofNat 32 (ds.foldl (fun v c => v * b + digitOf c) a) := by
  induction ds generalizing a with
  | nil => rfl
  | cons d ds ih =>
    rw [List.foldl_cons, List.foldl_cons, h d List.mem_cons_self]
    exact ih (fun c hc => h c (List.mem_cons_of_mem _ hc)) _

lemma specNumber_eq {shift : Nat} {ds : List UInt8} (h : ∀ c ∈ ds, digitOf c < 2 ^ shift) :
    specNumber ds shift = BitVec.ofNat 32 (numberOf (2 ^ shift) ds) :=
  foldl_digits (fun c hc => specDigit_eq (h c hc)) 0

lemma decimal_eq {ds : List UInt8} (h : ∀ c ∈ ds, isDigit c) :
    ds.foldl (fun v c => v * 10 + BitVec.ofNat 32 (c.toNat - '0'.toNat)) (BitVec.ofNat 32 0) =
      BitVec.ofNat 32 (numberOf 10 ds) :=
  foldl_digits (fun c hc a => by
    rw [((charFacts c).digit (h c hc)).2, BitVec.ofNat_add, BitVec.ofNat_mul]; rfl) 0

/-! ## The lexer before a text -/

variable {s : Lexer}

def advance (s : Lexer) (n : Nat) : Lexer := { s with position := s.position + n }

/-- The lexer is in front of a text. -/
def Before (s : Lexer) (text : List UInt8) : Prop :=
  s.eof = false ∧ s.line.drop s.position = text

lemma Before.next {c : UInt8} {text : List UInt8} (h : Before s (c :: text)) :
    s.nextChar = (if c = '\n'.toUInt8 then (0, { s with eof := true, position := 0 })
      else (c, s.advance 1)) ∧ Before (s.advance 1) text := by
  obtain ⟨he, hd⟩ := h
  have hc : s.line[s.position]? = some c := by
    rw [← List.head?_drop, hd]
    rfl
  refine ⟨?_, he, ?_⟩
  · simp only [nextChar, hc, if_neg (Bool.eq_false_iff.mp he)]
    rfl
  have htail : s.line.drop (s.position + 1) = (s.line.drop s.position).tail := by
    rw [List.tail_drop]
  rw [advance, htail, hd]
  rfl

lemma Before.readWhile {p : UInt8 → Bool} {ds text : List UInt8} (h : Before s (ds ++ text))
    (hp : p '\n'.toUInt8 = false) (hds : ∀ c ∈ ds, p c)
    (hstop : p (s.advance ds.length).nextChar.1 = false) :
    readWhile p s.nextChar.1 s.nextChar.2 = (ds, (s.advance ds.length).nextChar) := by
  have hlen : ds.length < s.nextChar.2.line.length + 2 := by
    have := congrArg List.length h.2
    rw [List.length_drop, List.length_append] at this
    rw [nextChar_line]
    omega
  rw [Lexer.readWhile]
  generalize s.nextChar.2.line.length + 2 = n at hlen
  induction ds generalizing s n with
  | nil =>
    obtain ⟨n, rfl⟩ : ∃ m, n = m + 1 := ⟨n - 1, by omega⟩
    rw [whileChar, if_neg (Bool.eq_false_iff.mp (by exact hstop : p s.nextChar.1 = false))]
    rfl
  | cons d ds ih =>
    obtain ⟨n, rfl⟩ : ∃ m, n = m + 1 := ⟨n - 1, by omega⟩
    have hpd := hds d List.mem_cons_self
    have hd : d ≠ '\n'.toUInt8 := fun hd => by rw [hd, hp] at hpd; cases hpd
    have hshift : (s.advance 1).advance ds.length = s.advance (d :: ds).length := by
      simp only [advance, List.length_cons, add_assoc, add_comm 1]
    have hrest := ih h.next.2 (fun c hc => hds c (List.mem_cons_of_mem _ hc)) (hshift ▸ hstop) n
      (by simpa using hlen)
    rw [h.next.1, if_neg hd, whileChar, if_pos hpd]
    rw [hrest, hshift]

/-! ## Behind the digits -/

/-- The token and the lexer behind a literal of `n` characters and its suffix. -/
def lexed (s : Lexer) (n : Nat) (suffix : List UInt8) (v : Nat) : TokenType × Lexer :=
  (if suffix = [] then .valueInt else .valueLong,
    { s.advance (n + suffix.length) with value := BitVec.ofNat 32 v })

structure Ending (suffix : List UInt8) (c : UInt8) : Prop where
  suffix : suffix = [] ∨ ∃ x, suffix = [x] ∧ isSuffix x
  separator : isSeparator c

variable {suffix rest ds : List UInt8} {c : UInt8}

lemma Before.next_of_alnum (h : Before s (c :: rest)) (hc : isAlnum c) :
    s.nextChar = (c, s.advance 1) := by
  rw [h.next.1, if_neg]
  rintro rfl
  cases hc

/-- The next character is the suffix, or neither a letter nor a digit. -/
theorem Before.behind (h : Before s (suffix ++ c :: rest)) (hend : Ending suffix c) :
    (suffix = [] ∧ isAlnum s.nextChar.1 = false) ∨
      ∃ x, suffix = [x] ∧ isSuffix x ∧ s.nextChar = (x, s.advance 1) := by
  rcases hend.suffix with rfl | ⟨x, rfl, hx⟩
  · rw [h.next.1]
    refine .inl ⟨rfl, ?_⟩
    split
    · exact (by decide : isAlnum 0 = false)
    exact (charFacts c).separator hend.separator
  exact .inr ⟨x, rfl, hx, h.next_of_alnum ((charFacts x).suffix hx).1⟩

lemma procSuffix_eq (ch : UInt8) (x : Lexer) :
    procSuffix ch x = if isSuffix ch then (.valueLong, x) else (.valueInt, x.prevChar) := by
  simp [procSuffix, isSuffix]

lemma procSuffix_none {ch : UInt8} (h : isAlnum ch = false) (x : Lexer) :
    procSuffix ch x = (.valueInt, x.prevChar) := by
  rw [procSuffix_eq, if_neg fun hs => by rw [((charFacts ch).suffix hs).1] at h; cases h]

lemma procSuffix_iff (h : Before s (suffix ++ c :: rest)) (hend : Ending suffix c) (v : Nat) :
    procSuffix s.nextChar.1 { s.nextChar.2 with value := BitVec.ofNat 32 v } = s.lexed 0 suffix v ↔
      (suffix = [] → c ≠ '\n'.toUInt8) := by
  rcases h.behind hend with ⟨rfl, hc⟩ | ⟨x, rfl, hx, hnext⟩
  · rw [procSuffix_none hc, h.next.1]
    by_cases hcn : c = '\n'.toUInt8 <;> simp [hcn, lexed, prevChar, advance, h.1]
  rw [hnext, procSuffix_eq, if_pos hx]
  simp [lexed, advance]

lemma Before.drop (h : Before s (ds ++ rest)) : Before (s.advance ds.length) rest := by
  refine ⟨h.1, ?_⟩
  rw [advance, ← List.drop_drop, h.2, List.drop_left]

lemma loop_eq {p : UInt8 → Bool} (h : Before s (ds ++ (suffix ++ c :: rest)))
    (hend : Ending suffix c) (hp : ∀ c, p c → isAlnum c)
    (hl : suffix = [] ∨ ∀ c, p c → isDigit c) (hds : ∀ c ∈ ds, p c) :
    readWhile p s.nextChar.1 s.nextChar.2 = (ds, (s.advance ds.length).nextChar) := by
  have hnot : ∀ c, isAlnum c = false → p c = false := fun c hc =>
    Bool.eq_false_iff.mpr fun hpc => Bool.eq_false_iff.mp hc (hp c hpc)
  refine h.readWhile (hnot _ (by decide)) hds ?_
  rcases h.drop.behind hend with ⟨-, hc⟩ | ⟨x, rfl, hx, hnext⟩
  · exact hnot _ hc
  rw [hnext]
  refine Bool.eq_false_iff.mpr fun hpx => ?_
  have hdigit := hl.resolve_left (List.cons_ne_nil _ _) x hpx
  rw [((charFacts x).suffix hx).2] at hdigit
  cases hdigit

def afterLoop (f : List UInt8 → BitVec 32) (r : List UInt8 × UInt8 × Lexer) : TokenType × Lexer :=
  procSuffix r.2.1 { r.2.2 with value := f r.1 }

lemma loop_iff {p : UInt8 → Bool} {f : List UInt8 → BitVec 32} {v : Nat} (k : Nat)
    (h : Before (s.advance k) (ds ++ (suffix ++ c :: rest))) (hend : Ending suffix c)
    (hp : ∀ c, p c → isAlnum c) (hl : suffix = [] ∨ ∀ c, p c → isDigit c) (hds : ∀ c ∈ ds, p c)
    (hf : f ds = BitVec.ofNat 32 v)
    (hproc : s.procNumber = afterLoop f
      (readWhile p (s.advance k).nextChar.1 (s.advance k).nextChar.2)) :
    s.procNumber = s.lexed (ds.length + k) suffix v ↔ (suffix = [] → c ≠ '\n'.toUInt8) := by
  have hlexed : s.lexed (ds.length + k) suffix v =
      ((s.advance k).advance ds.length).lexed 0 suffix v := by
    simp only [lexed, advance, zero_add, add_assoc, add_left_comm k]
  rw [hproc, loop_eq h hend hp hl hds, afterLoop, hf, hlexed]
  exact procSuffix_iff h.drop hend v

lemma procNumber_hex {x : UInt8} (h0 : s.nextChar = ('0'.toUInt8, s.advance 1))
    (h1 : (s.advance 1).nextChar = (x, s.advance 2)) (hx : x = 'x'.toUInt8 ∨ x = 'X'.toUInt8) :
    s.procNumber = afterLoop (specNumber · 4)
      (readWhile isAlnum (s.advance 2).nextChar.1 (s.advance 2).nextChar.2) := by
  rw [procNumber, h0]
  simp only [h1, if_true, if_pos hx]
  rfl

/-! ## The law -/

/-- **Number literals.** The lexer makes one token of a literal and its suffix, and stands on the
separator then, exactly if the suffix, if there is one, is behind a decimal, octal or binary number
other than a single `0`, and a newline is not the separator of a literal without a suffix. -/
theorem literal_iff (s : Lexer) (form : Form) (text : List UInt8) (v : Nat) (suffix : List UInt8)
    (c : UInt8) (rest : List UInt8) (hlit : Literal form text v) (hend : Ending suffix c)
    (h : Before s (text ++ (suffix ++ c :: rest))) :
    s.procNumber = s.lexed text.length suffix v ↔
      (suffix = [] → c ≠ '\n'.toUInt8) ∧ (suffix ≠ [] → form ≠ .zero ∧ form ≠ .hex) := by
  have hdigit : ∀ c, isDigit c → isAlnum c := fun c hc => ((charFacts c).digit hc).1
  cases hlit with
  | dec d ds hds h0 =>
    refine (loop_iff 0 h hend hdigit (.inr fun _ hc => hc) hds
      (decimal_eq hds) ?_).trans (and_iff_left fun _ => by decide).symm
    show s.procNumber = afterLoop _ (readWhile isDigit s.nextChar.1 s.nextChar.2)
    rw [procNumber, h.next_of_alnum (hdigit d (hds d List.mem_cons_self))]
    simp only [if_neg h0]
    rfl
  | oct ds hne hds =>
    have hp : ∀ c, isOctal c → isDigit c := fun c hc => ((charFacts c).octal hc).1.1
    have h1 := h.next.2
    have hfirst : isOctal (s.advance 1).nextChar.1 := by
      obtain ⟨d, ds, rfl⟩ := List.exists_cons_of_ne_nil hne
      have hd := hds d List.mem_cons_self
      rwa [h1.next_of_alnum (hdigit d (hp d hd))]
    obtain ⟨-, hx, hb⟩ := (charFacts _).octal hfirst
    refine (loop_iff 1 h1 hend (fun c hc => hdigit c (hp c hc)) (.inr hp) hds
      (specNumber_eq fun c hc => ((charFacts c).octal (hds c hc)).1.2) ?_).trans
        (and_iff_left fun _ => by decide).symm
    rw [procNumber, h.next_of_alnum (by decide)]
    simp only [if_true, if_neg hx, if_neg hb, if_pos hfirst]
    rfl
  | bin x ds hx hne hds =>
    have hp : ∀ c, isBinary c → isDigit c := fun c hc => ((charFacts c).binary hc).1
    have h1 := h.next.2
    refine (loop_iff 2 h1.next.2 hend (fun c hc => hdigit c (hp c hc)) (.inr hp) hds
      (specNumber_eq fun c hc => ((charFacts c).binary (hds c hc)).2) ?_).trans
        (and_iff_left fun _ => by decide).symm
    rw [procNumber, h.next_of_alnum (by decide)]
    simp only [h1.next_of_alnum (by rcases hx with rfl | rfl <;> decide), if_true, if_pos hx]
    rw [if_neg (by rcases hx with rfl | rfl <;> decide)]
    rfl
  | hex x ds hx hne hds =>
    have h1 := h.next.2
    have h2 : Before (s.advance 2) (ds ++ (suffix ++ c :: rest)) := h1.next.2
    have hproc := procNumber_hex (h.next_of_alnum (by decide))
      (h1.next_of_alnum (by rcases hx with rfl | rfl <;> decide)) hx
    have hall : ∀ c ∈ ds, isAlnum c := fun c hc => ((charFacts c).hex (hds c hc)).1
    rcases hend.suffix with hs | ⟨y, hs, hy⟩
    · exact (loop_iff 2 h2 hend (fun _ hc => hc) (.inl hs) hall
        (specNumber_eq fun c hc => ((charFacts c).hex (hds c hc)).2) hproc).trans
          (and_iff_left (absurd hs)).symm
    -- the loop takes the suffix as a digit
    have hne : suffix ≠ [] := by rw [hs]; exact List.cons_ne_nil _ _
    have hnone : Ending [] c := ⟨.inl rfl, hend.separator⟩
    rw [hproc]
    refine iff_of_false (fun heq => ?_) (fun hf => (hf.2 hne).2 rfl)
    rw [← List.append_assoc] at h2
    have hdigits : ∀ c ∈ ds ++ suffix, isAlnum c := by
      refine List.forall_mem_append.mpr ⟨hall, ?_⟩
      rw [hs, List.forall_mem_singleton]
      exact ((charFacts y).suffix hy).1
    have hloop := @loop_eq _ [] _ _ _ _ h2 hnone (fun _ hc => hc) (.inl rfl) hdigits
    have hbehind := (h2.drop.behind hnone).resolve_right (by rintro ⟨_, hn, -⟩; cases hn)
    rw [hloop, afterLoop, procSuffix_none hbehind.2, lexed, if_neg hne] at heq
    cases heq
  | zero =>
    have h1 := h.next.2
    have hproc : s.procNumber =
        (.valueInt, { (s.advance 1).nextChar.2.prevChar with value := 0 }) := by
      have hch : isAlnum (s.advance 1).nextChar.1 = false ∨ isSuffix (s.advance 1).nextChar.1 := by
        refine (h1.behind hend).imp And.right ?_
        rintro ⟨x, -, hx, hnext⟩
        rwa [hnext]
      obtain ⟨hx, hb, ho⟩ := (charFacts _).behind hch
      rw [procNumber, h.next_of_alnum (by decide)]
      simp only [if_true, if_neg hx, if_neg hb, if_neg ho]
    rw [hproc]
    rcases h1.behind hend with ⟨rfl, hc⟩ | ⟨x, rfl, -⟩
    · have hvalue (x : Lexer) :
          { x.prevChar with value := 0 } = { x with value := 0 }.prevChar := by
        unfold prevChar
        split <;> rfl
      rw [hvalue, ← procSuffix_none hc]
      exact (procSuffix_iff h1 hend 0).trans (and_iff_left (absurd rfl)).symm
    exact iff_of_false (fun heq => by cases heq) fun hf => (hf.2 (List.cons_ne_nil _ _)).1 rfl

theorem literal_iff_hex :
    (⟨['0', 'x', '1', 'F', ';'].map Char.toUInt8, 0, false, 0, [], false⟩ : Lexer).procNumber =
      (.valueInt, ⟨['0', 'x', '1', 'F', ';'].map Char.toUInt8, 4, false, 31, [], false⟩) :=
  (literal_iff _ .hex (['0', 'x', '1', 'F'].map Char.toUInt8) 31 [] ';'.toUInt8 []
    (.hex _ (['1', 'F'].map Char.toUInt8) (.inl rfl) (by decide) (by decide +kernel))
    ⟨.inl rfl, rfl⟩ ⟨rfl, rfl⟩).mpr (by decide)

/-- `0x1L` is an `int` with the value 28, and `0L` is the `int` 0 with the `L` left behind. -/
theorem suffix_lost :
    (⟨['0', 'x', '1', 'L', ';'].map Char.toUInt8, 0, false, 0, [], false⟩ : Lexer).procNumber =
        (.valueInt, ⟨['0', 'x', '1', 'L', ';'].map Char.toUInt8, 4, false, 28, [], false⟩) ∧
      (⟨['0', 'L', ';'].map Char.toUInt8, 0, false, 0, [], false⟩ : Lexer).procNumber =
        (.valueInt, ⟨['0', 'L', ';'].map Char.toUInt8, 1, false, 0, [], false⟩) := by
  decide

end NbIot.Finsh.Lexer
