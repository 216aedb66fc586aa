import Mathlib.Tactic

/-! # Doubly linked circular lists

`Ring next prev h ms` says that the nodes `ms` are linked in this order between the head `h` and `h`
again, whatever the links `next` and `prev` are stored in. `Links` is the case in which the links
are stored as they are, with the three primitives of an intrusive list.
-/

namespace NbIot

open Function List

/-! ## Chains -/

variable {N : Type}

def Linked (next prev : N → N) : List N → Prop
  | a :: b :: l => next a = b ∧ prev b = a ∧ Linked next prev (b :: l)
  | _ => True

namespace Linked

variable {next prev next' prev' : N → N}

lemma append_iff (l : List N) (a : N) (r : List N) :
    Linked next prev (l ++ a :: r) ↔ Linked next prev (l ++ [a]) ∧ Linked next prev (a :: r) := by
  induction l with
  | nil => simp [Linked]
  | cons b l ih =>
    cases l with
    | nil => simp [Linked, and_assoc]
    | cons c l =>
      simp only [cons_append, Linked] at ih ⊢
      rw [ih]
      simp only [and_assoc]

lemma congr {l : List N} (h : Linked next prev l) (hn : ∀ a ∈ l.dropLast, next' a = next a)
    (hp : ∀ a ∈ l.tail, prev' a = prev a) : Linked next' prev' l := by
  induction l with
  | nil => trivial
  | cons a l ih =>
    cases l with
    | nil => trivial
    | cons b l =>
      obtain ⟨h1, h2, h3⟩ := h
      refine ⟨?_, ?_, ih h3 (fun c hc => hn c ?_) fun c hc => hp c ?_⟩
      · rw [hn a (by simp), h1]
      · rw [hp b (by simp), h2]
      · exact mem_cons_of_mem a hc
      exact mem_cons_of_mem b hc

end Linked

/-! ## Rings -/

/-- The nodes `ms` form a circular list with the head `h`. -/
structure Ring (next prev : N → N) (h : N) (ms : List N) : Prop where
  nodup : (h :: ms).Nodup
  linked : Linked next prev (h :: (ms ++ [h]))

/-! ## Neighbours -/

/-- The node before the seam behind `as`. -/
def before (h : N) (as : List N) : N := (h :: as).getLast (by simp)

/-- The node behind the seam in front of `bs`. -/
def behind (h : N) (bs : List N) : N := (bs ++ [h]).head (by simp)

@[simp] lemma before_nil (h : N) : before h [] = h := rfl
@[simp] lemma before_concat (h : N) (as : List N) (a : N) : before h (as ++ [a]) = a := by
  simp [before]
@[simp] lemma behind_nil (h : N) : behind h [] = h := rfl
@[simp] lemma behind_cons (h b : N) (bs : List N) : behind h (b :: bs) = b := rfl

lemma before_mem (h : N) (as : List N) : before h as ∈ h :: as := getLast_mem _

lemma behind_mem (h : N) (bs : List N) : behind h bs ∈ h :: bs := by
  cases bs with
  | nil => exact mem_cons_self
  | cons b bs => exact mem_cons_of_mem h mem_cons_self

lemma eq_append_before (h : N) (as : List N) : h :: as = (h :: as).dropLast ++ [before h as] :=
  (dropLast_append_getLast _).symm

lemma eq_behind_cons (h : N) (bs : List N) : bs ++ [h] = behind h bs :: (bs ++ [h]).tail :=
  (cons_head_tail _).symm

namespace Ring

variable {next prev next' prev' : N → N} {h t : N} {ms as bs : List N}

lemma notMem_head (hr : Ring next prev h ms) : h ∉ ms := (nodup_cons.mp hr.nodup).1

lemma congr (hr : Ring next prev h ms) (hn : ∀ a ∈ h :: ms, next' a = next a)
    (hp : ∀ a ∈ h :: ms, prev' a = prev a) : Ring next' prev' h ms := by
  refine ⟨hr.nodup, hr.linked.congr (fun a ha => hn a ?_) fun a ha => hp a ?_⟩
  · rw [← cons_append, dropLast_concat] at ha
    exact ha
  simpa [or_comm] using ha

lemma eq_seam (h : N) (as bs : List N) : h :: (as ++ bs ++ [h])
    = (h :: as).dropLast ++ before h as :: behind h bs :: (bs ++ [h]).tail := by
  calc h :: (as ++ bs ++ [h]) = (h :: as) ++ (bs ++ [h]) := by simp
    _ = ((h :: as).dropLast ++ [before h as]) ++ (behind h bs :: (bs ++ [h]).tail) := by
        rw [← eq_append_before, ← eq_behind_cons]
    _ = _ := by simp

lemma linked_seam (hl : Linked next prev (h :: (as ++ bs ++ [h]))) :
    Linked next prev (h :: as) ∧ Linked next prev (bs ++ [h]) ∧
      next (before h as) = behind h bs ∧ prev (behind h bs) = before h as := by
  rw [eq_seam, Linked.append_iff, ← eq_append_before] at hl
  obtain ⟨hleft, hseam, hseam', hright⟩ := hl
  rw [← eq_behind_cons] at hright
  exact ⟨hleft, hright, hseam, hseam'⟩

lemma linked_of_seam (hleft : Linked next prev (h :: as)) (hright : Linked next prev (bs ++ [h]))
    (hn : next (before h as) = behind h bs) (hp : prev (behind h bs) = before h as) :
    Linked next prev (h :: (as ++ bs ++ [h])) := by
  rw [eq_seam, Linked.append_iff, ← eq_append_before]
  refine ⟨hleft, hn, hp, ?_⟩
  rwa [← eq_behind_cons]

/-! ## Cuts -/

lemma seam (hr : Ring next prev h (as ++ bs)) :
    next (before h as) = behind h bs ∧ prev (behind h bs) = before h as :=
  (linked_seam hr.linked).2.2

lemma neighbours (hr : Ring next prev h (as ++ t :: bs)) :
    prev t = before h as ∧ next t = behind h bs := by
  have hafter : Ring next prev h ((as ++ [t]) ++ bs) := by
    rwa [append_assoc]
  refine ⟨?_, ?_⟩
  · exact hr.seam.2
  simpa using hafter.seam.1

lemma neighbours_mem (hr : Ring next prev h ms) (ht : t ∈ ms) :
    prev t ∈ h :: ms ∧ next t ∈ h :: ms := by
  obtain ⟨as, bs, rfl⟩ := append_of_mem ht
  obtain ⟨hp, hn⟩ := hr.neighbours
  rw [hp, hn]
  have hbefore := before_mem h as
  have hbehind := behind_mem h bs
  simp only [mem_cons, mem_append] at hbefore hbehind ⊢
  tauto

lemma prev_head (hr : Ring next prev h ms) : prev h = before h ms := by
  have hr' : Ring next prev h (ms ++ []) := by rwa [append_nil]
  exact hr'.seam.2

lemma next_head (hr : Ring next prev h ms) : next h = behind h ms := by
  have hr' : Ring next prev h ([] ++ ms) := hr
  exact hr'.seam.1

/-- The two sides of a seam stay linked when links are changed at the seam only. -/
theorem linked_sides (hnd : (h :: (as ++ bs)).Nodup) (hleft : Linked next prev (h :: as))
    (hright : Linked next prev (bs ++ [h]))
    (hn : ∀ a ∈ h :: (as ++ bs), a ≠ before h as → next' a = next a)
    (hp : ∀ a ∈ h :: (as ++ bs), a ≠ behind h bs → prev' a = prev a) :
    Linked next' prev' (h :: as) ∧ Linked next' prev' (bs ++ [h]) := by
  obtain ⟨hh, hnd'⟩ := nodup_cons.mp hnd
  obtain ⟨has, hbs, hdisj⟩ := nodup_append.mp hnd'
  have hmemL : ∀ a ∈ h :: as, a ∈ h :: (as ++ bs) := by
    intro a ha
    exact mem_append_left bs ha
  have hmemR : ∀ b ∈ h :: bs, b ∈ h :: (as ++ bs) := by
    intro b hb
    rcases mem_cons.mp hb with rfl | hb
    · exact mem_cons_self
    exact mem_cons_of_mem h (mem_append_right as hb)
  -- `h` apart, a node of one side is none of the other
  have hapart : ∀ a ∈ as, a ∉ h :: bs := by
    intro a ha hb
    rcases mem_cons.mp hb with rfl | hb
    · exact hh (mem_append_left bs ha)
    exact hdisj a ha a hb rfl
  have hapart' : ∀ b ∈ bs, b ∉ h :: as := by
    intro b hb ha
    rcases mem_cons.mp ha with rfl | ha
    · exact hh (mem_append_right as hb)
    exact hdisj b ha b hb rfl
  constructor
  · refine hleft.congr (fun a ha => hn a (hmemL a (mem_of_mem_dropLast ha)) ?_) fun a ha =>
      hp a (hmemL a (mem_cons_of_mem h ha)) ?_
    · intro e
      have hndL : (h :: as).Nodup := nodup_cons.mpr ⟨fun hc => hh (mem_append_left bs hc), has⟩
      rw [eq_append_before h as] at hndL
      exact (nodup_append.mp hndL).2.2 a ha _ (mem_singleton_self _) e
    exact fun e => hapart a ha (e ▸ behind_mem h bs)
  refine hright.congr (fun b hb => ?_) fun b hb => ?_
  · rw [dropLast_concat] at hb
    exact hn b (hmemR b (mem_cons_of_mem h hb)) fun e => hapart' b hb (e ▸ before_mem h as)
  have hmem : b ∈ h :: bs := by
    simpa [or_comm] using mem_of_mem_tail hb
  refine hp b (hmemR b hmem) fun e => ?_
  have hndR : (bs ++ [h]).Nodup :=
    (nodup_cons.mpr ⟨fun hc => hh (mem_append_right as hc), hbs⟩).perm
      (perm_append_singleton h bs).symm
  rw [eq_behind_cons h bs] at hndR
  exact (nodup_cons.mp hndR).1 (e ▸ hb)

lemma middle_perm (h t : N) (as bs : List N) : (h :: (as ++ t :: bs)).Perm (t :: h :: (as ++ bs)) :=
  (perm_middle.cons h).trans (List.Perm.swap t h (as ++ bs))

lemma notMem_rest (hr : Ring next prev h (as ++ t :: bs)) : t ∉ h :: (as ++ bs) :=
  (nodup_cons.mp ((middle_perm h t as bs).nodup_iff.mp hr.nodup)).1

lemma erase (hr : Ring next prev h (as ++ t :: bs))
    (hn : ∀ a ∈ h :: (as ++ bs), a ≠ before h as → next' a = next a)
    (hp : ∀ a ∈ h :: (as ++ bs), a ≠ behind h bs → prev' a = prev a)
    (hn' : next' (before h as) = behind h bs) (hp' : prev' (behind h bs) = before h as) :
    Ring next' prev' h (as ++ bs) := by
  have hnd : (h :: (as ++ bs)).Nodup :=
    hr.nodup.sublist (((sublist_cons_self t bs).append_left as).cons_cons h)
  have hr' : Ring next prev h ((as ++ [t]) ++ bs) := by
    rwa [append_assoc]
  obtain ⟨hleft, hright⟩ := linked_sides hnd (linked_seam hr.linked).1
    (linked_seam hr'.linked).2.1 hn hp
  exact ⟨hnd, linked_of_seam hleft hright hn' hp'⟩

lemma splice (hr : Ring next prev h (as ++ bs)) (ht : t ∉ h :: (as ++ bs))
    (hn : ∀ a ∈ h :: (as ++ bs), a ≠ before h as → next' a = next a)
    (hp : ∀ a ∈ h :: (as ++ bs), a ≠ behind h bs → prev' a = prev a)
    (hbefore : next' (before h as) = t) (ht' : prev' t = before h as) (htn : next' t = behind h bs)
    (hbehind : prev' (behind h bs) = t) : Ring next' prev' h (as ++ t :: bs) := by
  obtain ⟨hleft, hright⟩ := linked_sides hr.nodup (linked_seam hr.linked).1
    (linked_seam hr.linked).2.1 hn hp
  refine ⟨(middle_perm h t as bs).nodup_iff.mpr (nodup_cons.mpr ⟨ht, hr.nodup⟩),
    linked_of_seam hleft ?_ hbefore ht'⟩
  rw [cons_append, eq_behind_cons h bs]
  refine ⟨htn, hbehind, ?_⟩
  rwa [← eq_behind_cons]

end Ring

/-! ## Links in memory -/

structure Links (N : Type) where
  next : N → N
  prev : N → N

namespace Links

variable [DecidableEq N]

def setNext (L : Links N) (a b : N) : Links N := { L with next := update L.next a b }

def setPrev (L : Links N) (a b : N) : Links N := { L with prev := update L.prev a b }

/-- Take `n` out of the list it is in, and leave it linked to itself. -/
def remove (L : Links N) (n : N) : Links N :=
  let L := L.setPrev (L.next n) (L.prev n)
  let L := L.setNext (L.prev n) (L.next n)
  let L := L.setPrev n n
  L.setNext n (L.prev n)

/-- Put `n` in front of `l`, that is behind all members if `l` is the head. -/
def insertBefore (L : Links N) (l n : N) : Links N :=
  let L := L.setNext (L.prev l) n
  let L := L.setPrev n (L.prev l)
  let L := L.setPrev l n
  L.setNext n l

variable (L : Links N) {h t : N} {ms as bs : List N}

lemma remove_next (n : N) :
    (L.remove n).next = update (update L.next (L.prev n) (L.next n)) n n := by
  simp only [remove, setNext, setPrev, update_self]
  by_cases e : L.next n = n
  · rw [e, update_self]
  rw [update_of_ne (Ne.symm e)]

lemma remove_prev (n : N) :
    (L.remove n).prev = update (update L.prev (L.next n) (L.prev n)) n n := rfl

lemma insertBefore_next (l n : N) :
    (L.insertBefore l n).next = update (update L.next (L.prev l) n) n l := rfl

lemma insertBefore_prev (l n : N) :
    (L.insertBefore l n).prev = update (update L.prev n (L.prev l)) l n := rfl

/-- A node that is linked to itself is in no list, and taking it out changes nothing. -/
theorem remove_loose {n : N} (hn : L.next n = n) (hp : L.prev n = n) : L.remove n = L := by
  have h1 : (L.remove n).next = L.next := by
    rw [remove_next, hp]
    simp [hn]
  have h2 : (L.remove n).prev = L.prev := by
    rw [remove_prev, hn]
    simp [hp]
  calc L.remove n = ⟨(L.remove n).next, (L.remove n).prev⟩ := rfl
    _ = L := by rw [h1, h2]

variable {L}

lemma ring_remove (hr : Ring L.next L.prev h (as ++ t :: bs)) :
    Ring (L.remove t).next (L.remove t).prev h (as ++ bs) := by
  obtain ⟨hprev, hnext⟩ := hr.neighbours
  have hne : ∀ a ∈ h :: (as ++ bs), a ≠ t := fun a ha => ne_of_mem_of_not_mem ha hr.notMem_rest
  have hbefore : before h as ≠ t := hne _ (by exact mem_append_left bs (before_mem h as))
  have hbehind : behind h bs ≠ t := by
    refine hne _ ?_
    rcases mem_cons.mp (behind_mem h bs) with e | hmem
    · rw [e]; exact mem_cons_self
    exact mem_cons_of_mem h (mem_append_right as hmem)
  refine hr.erase (fun a ha hab => ?_) (fun a ha hab => ?_) ?_ ?_
  · rw [remove_next, hprev, update_of_ne (hne a ha), update_of_ne hab]
  · rw [remove_prev, hnext, update_of_ne (hne a ha), update_of_ne hab]
  · rw [remove_next, hprev, hnext, update_of_ne hbefore, update_self]
  rw [remove_prev, hprev, hnext, update_of_ne hbehind, update_self]

lemma ring_insertBefore (hr : Ring L.next L.prev h ms) (ht : t ∉ h :: ms) :
    Ring (L.insertBefore h t).next (L.insertBefore h t).prev h (ms ++ [t]) := by
  have hprev := hr.prev_head
  have hne : ∀ a ∈ h :: ms, a ≠ t := fun a ha => ne_of_mem_of_not_mem ha ht
  have hr' : Ring L.next L.prev h (ms ++ []) := by rwa [append_nil]
  refine hr'.splice (by rwa [append_nil]) (fun a ha hab => ?_) (fun a ha hab => ?_) ?_ ?_ ?_ ?_
  · rw [append_nil] at ha
    rw [insertBefore_next, hprev, update_of_ne (hne a ha), update_of_ne hab]
  · rw [append_nil] at ha
    rw [behind_nil] at hab
    rw [insertBefore_prev, update_of_ne hab, update_of_ne (hne a ha)]
  · rw [insertBefore_next, hprev, update_of_ne (hne _ (before_mem h ms)), update_self]
  · rw [insertBefore_prev, hprev, update_of_ne (hne h mem_cons_self).symm, update_self]
  · rw [insertBefore_next, update_self, behind_nil]
  rw [insertBefore_prev, behind_nil, update_self]

lemma ring_remove_of_notMem (hr : Ring L.next L.prev h ms) (ht : t ∉ h :: ms)
    (hn : L.next t ∉ h :: ms) (hp : L.prev t ∉ h :: ms) :
    Ring (L.remove t).next (L.remove t).prev h ms := by
  refine hr.congr (fun a ha => ?_) fun a ha => ?_
  · rw [remove_next, update_of_ne (ne_of_mem_of_not_mem ha ht),
      update_of_ne (ne_of_mem_of_not_mem ha hp)]
  rw [remove_prev, update_of_ne (ne_of_mem_of_not_mem ha ht),
    update_of_ne (ne_of_mem_of_not_mem ha hn)]

lemma ring_insertBefore_of_notMem {l : N} (hr : Ring L.next L.prev h ms) (ht : t ∉ h :: ms)
    (hl : l ∉ h :: ms) (hp : L.prev l ∉ h :: ms) :
    Ring (L.insertBefore l t).next (L.insertBefore l t).prev h ms := by
  refine hr.congr (fun a ha => ?_) fun a ha => ?_
  · rw [insertBefore_next, update_of_ne (ne_of_mem_of_not_mem ha ht),
      update_of_ne (ne_of_mem_of_not_mem ha hp)]
  rw [insertBefore_prev, update_of_ne (ne_of_mem_of_not_mem ha hl),
    update_of_ne (ne_of_mem_of_not_mem ha ht)]

end Links

end NbIot
