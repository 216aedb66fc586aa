import NbIot.Finsh.Vm

/-! # Integer expressions of finsh

The expressions over literals and user variables of 32 bits, with a meaning that is independent of
the machine: they are evaluated from left to right on integers, and every result wraps to the range
of a signed 32-bit integer (`IntExpr.eval`). `IntExpr.evalWord` is the same on the words that the
machine works with; the words, read as signed integers, are the values of the first (`eval_toInt`).
-/

namespace NbIot.Finsh

open Function Option

/-! ## Words and integers -/

def wrap (x : Int) : Int := x.bmod (2 ^ 32)

/-- The operators on signed integers of 32 bits; `none` is no defined result. -/
def Arith.signed : Arith → Int → Int → Option Int
  | add, a, b => some (wrap (a + b))
  | sub, a, b => some (wrap (a - b))
  | mul, a, b => some (wrap (a * b))
  | div, a, b => if b ≠ 0 ∧ ¬ (a = -2 ^ 31 ∧ b = -1) then some (a.tdiv b) else none
  | mod, a, b => if b ≠ 0 ∧ ¬ (a = -2 ^ 31 ∧ b = -1) then some (a.tmod b) else none
  | and, a, b => some (BitVec.ofInt 32 a &&& BitVec.ofInt 32 b).toInt
  | or, a, b => some (BitVec.ofInt 32 a ||| BitVec.ofInt 32 b).toInt
  | xor, a, b => some (BitVec.ofInt 32 a ^^^ BitVec.ofInt 32 b).toInt
  | shl, a, b => if 0 ≤ b ∧ b < 32 then some (wrap (a * 2 ^ b.toNat)) else none
  | shr, a, b => if 0 ≤ b ∧ b < 32 then some (a / 2 ^ b.toNat) else none

lemma divides_iff (a b : BitVec 32) :
    Divides a b ↔ b.toInt ≠ 0 ∧ ¬ (a.toInt = -2 ^ 31 ∧ b.toInt = -1) := by
  have hzero : b = 0 ↔ b.toInt = 0 := by rw [← BitVec.toInt_inj]; rfl
  have hmin : a = BitVec.intMin 32 ↔ a.toInt = -2 ^ 31 := by rw [← BitVec.toInt_inj]; rfl
  have hone : b = -1 ↔ b.toInt = -1 := by rw [← BitVec.toInt_inj]; rfl
  rw [Divides, ne_eq, hzero, hmin, hone]

lemma count_iff (b : BitVec 32) : b.toNat < 32 ↔ 0 ≤ b.toInt ∧ b.toInt < 32 := by
  rw [BitVec.toInt_eq_toNat_cond]
  split <;> omega

lemma toNat_count {b : BitVec 32} (h : b.toNat < 32) : b.toInt.toNat = b.toNat := by
  rw [BitVec.toInt_eq_toNat_cond]
  split <;> omega

lemma map_toInt_ite {p q : Prop} [Decidable p] [Decidable q] (hpq : p ↔ q) {v : BitVec 32} {x : Int}
    (hv : p → v.toInt = x) :
    (if p then some v else none).map BitVec.toInt = if q then some x else none := by
  by_cases hp : p
  · rw [if_pos hp, if_pos (hpq.mp hp), map_some, hv hp]
  rw [if_neg hp, if_neg (mt hpq.mpr hp), map_none]

lemma toInt_arith (op : Arith) (a b : BitVec 32) :
    (op.eval a b).map BitVec.toInt = op.signed a.toInt b.toInt := by
  cases op with
  | add => simp [Arith.eval, Arith.signed, wrap]
  | sub => simp [Arith.eval, Arith.signed, wrap]
  | mul => simp [Arith.eval, Arith.signed, wrap]
  | and | or | xor => simp [Arith.eval, Arith.signed]
  | div =>
    exact map_toInt_ite (divides_iff a b) fun h =>
      BitVec.toInt_sdiv_of_ne_or_ne a b (Decidable.not_and_iff_or_not.mp h.2)
  | mod => exact map_toInt_ite (divides_iff a b) fun _ => BitVec.toInt_srem a b
  | shl =>
    refine map_toInt_ite (count_iff b) fun h => ?_
    rw [BitVec.toInt_shiftLeft, toNat_count h, wrap, BitVec.toInt_eq_toNat_bmod a,
      Int.bmod_mul_bmod, Nat.shiftLeft_eq, Nat.cast_mul, Nat.cast_pow, Nat.cast_ofNat]
  | shr =>
    refine map_toInt_ite (count_iff b) fun h => ?_
    rw [BitVec.toInt_sshiftRight, toNat_count h, Int.shiftRight_eq_div_pow]
    rfl

lemma toInt_complement (a : BitVec 32) : (~~~a).toInt = -a.toInt - 1 := by
  rw [BitVec.toInt_eq_toNat_cond, BitVec.toInt_eq_toNat_cond, BitVec.toNat_not]
  split <;> omega

/-! ## The operators `++` and `--` -/

/-- The operators `++` and `--`. -/
inductive Step where
  | inc | dec
  deriving DecidableEq

def Step.arith : Step → Arith
  | inc => .add
  | dec => .sub

def Step.signed : Step → Int → Int
  | inc, v => wrap (v + 1)
  | dec, v => wrap (v - 1)

def Step.apply : Step → BitVec 32 → BitVec 32
  | inc, v => v + 1
  | dec, v => v - 1

lemma toInt_apply (op : Step) (v : BitVec 32) : (op.apply v).toInt = op.signed v.toInt := by
  cases op with
  | inc => exact BitVec.toInt_add v 1
  | dec => exact BitVec.toInt_sub

/-! ## Integer expressions -/

inductive IntExpr where
  | int (v : BitVec 32)
  | long (v : BitVec 32)
  | var (i : Nat)
  | bin (op : Arith) (l r : IntExpr)
  | complement (e : IntExpr)
  | negate (e : IntExpr)
  | pre (op : Step) (i : Nat)
  | post (op : Step) (i : Nat)
  | assign (i : Nat) (e : IntExpr)
  deriving DecidableEq

/-- Evaluation from left to right, with the variables after it; `none` is a division or a shift
without a defined result. -/
def IntExpr.eval : IntExpr → (Nat → Int) → Option (Int × (Nat → Int))
  | int v, ρ => some (v.toInt, ρ)
  | long v, ρ => some (v.toInt, ρ)
  | var i, ρ => some (ρ i, ρ)
  | bin op l r, ρ => do
    let (a, ρ₁) ← l.eval ρ
    let (b, ρ₂) ← r.eval ρ₁
    let v ← op.signed a b
    some (v, ρ₂)
  | complement e, ρ => do
    let (a, ρ₁) ← e.eval ρ
    some (-a - 1, ρ₁)
  | negate e, ρ => do
    let (a, ρ₁) ← e.eval ρ
    some (wrap (-a), ρ₁)
  | pre op i, ρ => some (op.signed (ρ i), update ρ i (op.signed (ρ i)))
  | post op i, ρ => some (ρ i, update ρ i (op.signed (ρ i)))
  | assign i e, ρ => do
    let (a, ρ₁) ← e.eval ρ
    some (a, update ρ₁ i a)

def evalLine : List IntExpr → (Nat → Int) → Option (Int × (Nat → Int))
  | [], _ => none
  | [e], ρ => e.eval ρ
  | e :: es, ρ => do
    let (_, ρ₁) ← e.eval ρ
    evalLine es ρ₁

/-! ## The same on words -/

abbrev Store : Type := Nat → BitVec 32

def Store.toInt (σ : Store) : Nat → Int := fun i => (σ i).toInt

lemma Store.toInt_update (σ : Store) (i : Nat) (v : BitVec 32) :
    Store.toInt (update σ i v) = update σ.toInt i v.toInt := by
  funext j
  by_cases h : j = i
  · subst h
    simp [Store.toInt]
  simp [Store.toInt, h]

def IntExpr.evalWord : IntExpr → Store → Option (BitVec 32 × Store)
  | int v, σ => some (v, σ)
  | long v, σ => some (v, σ)
  | var i, σ => some (σ i, σ)
  | bin op l r, σ => do
    let (a, σ₁) ← l.evalWord σ
    let (b, σ₂) ← r.evalWord σ₁
    let v ← op.eval a b
    some (v, σ₂)
  | complement e, σ => do
    let (a, σ₁) ← e.evalWord σ
    some (~~~a, σ₁)
  | negate e, σ => do
    let (a, σ₁) ← e.evalWord σ
    some (-a, σ₁)
  | pre op i, σ => some (op.apply (σ i), update σ i (op.apply (σ i)))
  | post op i, σ => some (σ i, update σ i (op.apply (σ i)))
  | assign i e, σ => do
    let (a, σ₁) ← e.evalWord σ
    some (a, update σ₁ i a)

def evalLineWord : List IntExpr → Store → Option (BitVec 32 × Store)
  | [], _ => none
  | [e], σ => e.evalWord σ
  | e :: es, σ => do
    let (_, σ₁) ← e.evalWord σ
    evalLineWord es σ₁

def readSigned (r : BitVec 32 × Store) : Int × (Nat → Int) := (r.1.toInt, r.2.toInt)

lemma bind_readSigned (r : Option (BitVec 32 × Store)) {f : BitVec 32 × Store → Option _}
    {g : Int × (Nat → Int) → Option _} (h : ∀ p, g (readSigned p) = (f p).map readSigned) :
    (r.map readSigned).bind g = (r.bind f).map readSigned := by
  cases r with
  | none => rfl
  | some p => exact h p

lemma eval_toInt (e : IntExpr) (σ : Store) : e.eval σ.toInt = (e.evalWord σ).map readSigned := by
  induction e generalizing σ with
  | int v => rfl
  | long v => rfl
  | var i => rfl
  | bin op l r ihl ihr =>
    rw [IntExpr.eval, ihl]
    refine bind_readSigned _ fun p => ?_
    dsimp only [readSigned]
    rw [ihr]
    refine bind_readSigned _ fun q => ?_
    simp only [readSigned, ← toInt_arith]
    cases op.eval p.1 q.1 <;> rfl
  | complement e ih =>
    rw [IntExpr.eval, ih]
    exact bind_readSigned _ fun p => by simp only [readSigned, map_some, toInt_complement]
  | negate e ih =>
    rw [IntExpr.eval, ih]
    exact bind_readSigned _ fun p => by simp only [readSigned, map_some, wrap, BitVec.toInt_neg]
  | pre op i | post op i =>
    simp only [IntExpr.evalWord, map_some, readSigned, Store.toInt_update, toInt_apply]
    rfl
  | assign i e ih =>
    rw [IntExpr.eval, ih]
    exact bind_readSigned _ fun p => by simp only [readSigned, map_some, Store.toInt_update]

lemma evalLine_toInt (es : List IntExpr) (σ : Store) :
    evalLine es σ.toInt = (evalLineWord es σ).map readSigned := by
  induction es generalizing σ with
  | nil => rfl
  | cons e es ih =>
    cases es with
    | nil => exact eval_toInt e σ
    | cons e' es =>
      rw [evalLine, evalLineWord, eval_toInt]
      · exact bind_readSigned _ fun p => ih p.2
      · simp
      simp

end NbIot.Finsh
