import Mathlib.Tactic

/-! # The next place on a circle

A circle has `n` places, numbered from 0, and a point that moves forward on it. `ahead n now x` is
how far the point at `now` is from the next time it comes to `x`; a place where it is now is a whole
round ahead.
-/

namespace NbIot.Circle

variable {α : Type}

/-- How far `x` is ahead of `now`. -/
def ahead (n now x : Int) : Int := if now < x then x - now else x - now + n

section

variable {n now x t e : Int}

lemma ahead_le (hx : x < n) (hnow : 0 ≤ now) : ahead n now x ≤ n := by
  unfold ahead
  split <;> omega

lemma ahead_self (n now : Int) : ahead n now now = n := by
  unfold ahead
  omega

lemma ahead_add (hx : 0 ≤ x) (hxn : x < n) (he : 0 ≤ e) (h : e < ahead n (t % n) x) :
    ahead n ((t + e) % n) x = ahead n (t % n) x - e := by
  have hpos : 0 < n := by omega
  have hlo := Int.emod_nonneg t hpos.ne'
  have hhi := Int.emod_lt_of_pos t hpos
  have hle : ahead n (t % n) x ≤ n := ahead_le hxn hlo
  have hnext : (t + e) % n = if t % n + e < n then t % n + e else t % n + e - n := by
    rw [Int.add_emod, Int.emod_eq_of_lt he (by omega)]
    split
    · exact Int.emod_eq_of_lt (by omega) (by omega)
    rw [← Int.sub_emod_right]
    exact Int.emod_eq_of_lt (by omega) (by omega)
  unfold ahead at h ⊢
  split_ifs at h ⊢ <;> omega

end

/-- The nearest place above the point, the furthest one below it, and how far they are; `up` is `n`
and `down` is 0 as long as there is none. -/
structure Nearest (α : Type) where
  up : Int
  above : Option α
  down : Int
  below : Option α

def look (key : α → Int) (now : Int) (s : Nearest α) (a : α) : Nearest α :=
  if key a - now > 0 then
    if key a - now < s.up then { s with up := key a - now, above := some a } else s
  else if key a - now < s.down then { s with down := key a - now, below := some a } else s

def scan (key : α → Int) (n now : Int) (l : List α) : Nearest α :=
  l.foldl (look key now) ⟨n, none, 0, none⟩

def pick (n : Int) (s : Nearest α) : Option α :=
  if s.up < n then s.above else if s.down < 0 then s.below else none

section

variable {key : α → Int} {n now : Int}

structure Seen (key : α → Int) (n now : Int) (seen : List α) (s : Nearest α) : Prop where
  above : s.up < n → ∃ a ∈ seen, s.above = some a ∧ key a - now = s.up ∧ 0 < s.up
  below : s.down < 0 → ∃ a ∈ seen, s.below = some a ∧ key a - now = s.down
  up_le : ∀ b ∈ seen, 0 < key b - now → s.up ≤ key b - now
  le_down : ∀ b ∈ seen, key b - now ≤ 0 → s.down ≤ key b - now

lemma Seen.look {seen : List α} {s : Nearest α} (h : Seen key n now seen s) (a : α) :
    Seen key n now (seen ++ [a]) (look key now s a) := by
  have hall : ∀ {P : α → Prop}, (∀ b ∈ seen, P b) → P a → ∀ b ∈ seen ++ [a], P b :=
    fun hseen ha => List.forall_mem_append.mpr ⟨hseen, List.forall_mem_singleton.mpr ha⟩
  have habove : s.up < n → ∃ b ∈ seen ++ [a], s.above = some b ∧ key b - now = s.up ∧ 0 < s.up :=
    fun hu => (h.above hu).imp fun b hb => ⟨List.mem_append_left _ hb.1, hb.2⟩
  have hbelow : s.down < 0 → ∃ b ∈ seen ++ [a], s.below = some b ∧ key b - now = s.down :=
    fun hd => (h.below hd).imp fun b hb => ⟨List.mem_append_left _ hb.1, hb.2⟩
  unfold Circle.look
  split_ifs with hpos hless hless
  · -- nearer than everything above that has been seen
    refine ⟨fun _ => ⟨a, by simp, rfl, rfl, hpos⟩, hbelow, hall (fun b hb hb' => ?_) ?_,
      hall h.le_down (by omega)⟩
    · exact hless.le.trans (h.up_le b hb hb')
    exact fun _ => le_rfl
  · exact ⟨habove, hbelow, hall h.up_le (fun _ => not_lt.mp hless), hall h.le_down (by omega)⟩
  · -- further than everything below
    refine ⟨habove, fun _ => ⟨a, by simp, rfl, rfl⟩, hall h.up_le (by omega),
      hall (fun b hb hb' => ?_) ?_⟩
    · exact hless.le.trans (h.le_down b hb hb')
    exact fun _ => le_rfl
  exact ⟨habove, hbelow, hall h.up_le (by omega), hall h.le_down (fun _ => not_lt.mp hless)⟩

lemma seen_scan (key : α → Int) (n now : Int) (l : List α) :
    Seen key n now l (scan key n now l) := by
  have hrun : ∀ (rest seen : List α) (s : Nearest α), Seen key n now seen s →
      Seen key n now (seen ++ rest) (rest.foldl (look key now) s) := by
    intro rest
    induction rest with
    | nil => exact fun seen s h => by rwa [List.append_nil]
    | cons a rest ih =>
      intro seen s h
      have hnext := ih (seen ++ [a]) _ (h.look a)
      rwa [List.append_assoc] at hnext
  exact hrun l [] _ ⟨fun h => absurd h (lt_irrefl n), fun h => absurd h (lt_irrefl 0), by simp,
    by simp⟩

/-- **The pass finds the first place.** It finds none only if the point is at all of them. -/
theorem pick_scan (hnow : 0 ≤ now) {l : List α} (hkey : ∀ a ∈ l, 0 ≤ key a ∧ key a < n) :
    match pick n (scan key n now l) with
    | none => ∀ a ∈ l, key a = now
    | some a => a ∈ l ∧ key a ≠ now ∧ ∀ b ∈ l, ahead n now (key a) ≤ ahead n now (key b) := by
  have h := seen_scan key n now l
  unfold pick
  split_ifs with hup hdown
  · obtain ⟨a, ha, heq, hkeya, hpos⟩ := h.above hup
    rw [heq]
    refine ⟨ha, by omega, fun b hb => ?_⟩
    have ha' := hkey a ha
    have hb' := hkey b hb
    have hle := h.up_le b hb
    unfold ahead
    split_ifs <;> omega
  · -- nothing is above the point
    obtain ⟨a, ha, heq, hkeya⟩ := h.below hdown
    rw [heq]
    refine ⟨ha, by omega, fun b hb => ?_⟩
    have hle := h.up_le b hb
    have hle' := h.le_down b hb
    unfold ahead
    split_ifs <;> omega
  intro a ha
  have ha' := hkey a ha
  have hle := h.up_le a ha
  have hle' := h.le_down a ha
  omega

end

end NbIot.Circle
