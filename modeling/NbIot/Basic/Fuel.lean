import Mathlib.Tactic

/-! # Programs with fuel

A recursive program that need not end is a family of programs indexed by its fuel: the members are
total, and a member that has too little fuel stops with an error. What such a program computes is
what every member computes from some amount of fuel on. `Settles` says that there is such an
amount; it composes along `>>=`, and a program that spends one unit to run its body settles as its
body does.
-/

namespace NbIot.Fuel

variable {σ ε α β : Type}

/-- A program on the state `σ` that may stop with an `ε`. -/
abbrev Prog (σ ε α : Type) : Type := StateT σ (Except ε) α

/-- With enough fuel, `m` leads from `s` to `s'` with the result `a`. -/
def Settles (m : Nat → Prog σ ε α) (s : σ) (a : α) (s' : σ) : Prop :=
  ∃ k, ∀ n, k ≤ n → m n s = .ok (a, s')

variable {m : Nat → Prog σ ε α} {s s' s'' : σ} {a : α} {b : β}

lemma bind_of_ok {o : Prog σ ε α} (h : o s = .ok (a, s')) (f : α → Prog σ ε β) :
    (o >>= f) s = f a s' := by
  calc (o >>= f) s = (o s >>= fun p => f p.1 p.2) := rfl
    _ = f a s' := by rw [h]; rfl

lemma Settles.bind {f : Nat → α → Prog σ ε β} (hm : Settles m s a s')
    (hf : Settles (fun n => f n a) s' b s'') : Settles (fun n => m n >>= f n) s b s'' := by
  obtain ⟨k, hk⟩ := hm
  obtain ⟨l, hl⟩ := hf
  refine ⟨max k l, fun n hn => ?_⟩
  exact (bind_of_ok (hk n (by omega)) _).trans (hl n (by omega))

lemma settles_of_succ (k : Nat) (h : ∀ n, k ≤ n → m (n + 1) s = .ok (a, s')) :
    Settles m s a s' := by
  refine ⟨k + 1, fun n hn => ?_⟩
  obtain ⟨n, rfl⟩ : ∃ i, n = i + 1 := ⟨n - 1, by omega⟩
  exact h n (by omega)

lemma Settles.call {body : Nat → Prog σ ε α} (hbody : ∀ n, m (n + 1) = body n)
    (h : Settles body s a s') : Settles m s a s' := by
  obtain ⟨k, hk⟩ := h
  exact settles_of_succ k fun n hn => by rw [hbody]; exact hk n hn

def SettlesLoop (m : Nat → Nat → Prog σ ε α) (s : σ) (a : α) (s' : σ) : Prop :=
  ∃ k, ∀ i j, k ≤ i → k ≤ j → m i j s = .ok (a, s')

lemma SettlesLoop.settles {m : Nat → Nat → Prog σ ε α} (h : SettlesLoop m s a s') :
    Settles (fun n => m n n) s a s' := by
  obtain ⟨k, hk⟩ := h
  exact ⟨k, fun n hn => hk n n hn hn⟩

/-- A loop whose first turn leads, with enough fuel for what it calls, to the rest of the loop. -/
theorem SettlesLoop.turn {m m' : Nat → Nat → Prog σ ε α} {k : Nat}
    (hturn : ∀ i j, k ≤ i → m i (j + 1) s = m' i j s') (h : SettlesLoop m' s' a s'') :
    SettlesLoop m s a s'' := by
  obtain ⟨l, hl⟩ := h
  refine ⟨max k l + 1, fun i j hi hj => ?_⟩
  obtain ⟨j, rfl⟩ : ∃ j', j = j' + 1 := ⟨j - 1, by omega⟩
  rw [hturn i j (by omega)]
  exact hl i j (by omega) (by omega)

end NbIot.Fuel
