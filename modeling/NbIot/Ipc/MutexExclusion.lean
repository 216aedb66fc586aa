import NbIot.Ipc.Mutex

/-! # Mutual exclusion and hand-off

A release gives the mutex to the first waiter before that thread has run, while its timer may
still be running and other threads may call `rt_mutex_take`.

`Balanced` counts for each thread and each mutex: `hold` is the number of takes of the owner that
it has not released. The counter has 8 bits, so this needs `NestOk`.
-/

namespace NbIot.Mutexes

open Run

/-! ## Counting -/

variable {T M : Type}

section

variable [DecidableEq T] [DecidableEq M] {s s' : State T M}

/-- The takes of `m` by `t` that have returned `RT_EOK`. -/
def takes (s : State T M) (t : T) (m : M) : Nat := s.log.count (.took t m rtEok)

/-- The releases of `m` by `t` that have returned `RT_EOK`. -/
def releases (s : State T M) (t : T) (m : M) : Nat := s.log.count (.released t m rtEok)

/-- The take of `m` that `t` waits in has been granted: it has not returned yet, but it is a
take that `t` will have to release. -/
def inFlight (s : State T M) (t : T) (m : M) : Nat :=
  if s.pend t = some m ∧ (s.mutex m).owner = some t then 1 else 0

def NestOk (s : State T M) : Action T M → Prop
  | .take t m _ => (s.mutex m).owner = some t → (s.mutex m).hold < 255
  | _ => True

instance (s : State T M) (a : Action T M) : Decidable (NestOk s a) := by
  cases a <;> unfold NestOk <;> infer_instance

/-- `hold` is the number of takes that the owner has not released, and no other thread has any. -/
structure Balanced (s : State T M) : Prop where
  hold : ∀ {m t}, (s.mutex m).owner = some t → 1 ≤ (s.mutex m).hold ∧ (s.mutex m).hold ≤ 255
  balance : ∀ t m, (if (s.mutex m).owner = some t then (s.mutex m).hold else 0) + releases s t m =
    takes s t m + inFlight s t m

lemma takes_ret (s : State T M) (k : Kernel T M) (m : M) (mx : Mutex T) (c : Call T M) (u : T)
    (m' : M) : takes (s.ret k m mx c) u m' =
      takes s u m' + if c = .took u m' rtEok then 1 else 0 := by
  simp [takes, State.ret, List.count_singleton]

lemma releases_ret (s : State T M) (k : Kernel T M) (m : M) (mx : Mutex T) (c : Call T M) (u : T)
    (m' : M) : releases (s.ret k m mx c) u m' =
      releases s u m' + if c = .released u m' rtEok then 1 else 0 := by
  simp [releases, State.ret, List.count_singleton]

lemma balanced_start {s : State T M} (h : Start s) : Balanced s := by
  have howner : ∀ m, (s.mutex m).owner = none := by
    intro m
    obtain ⟨flag, hm⟩ := h.mutex m
    simp [hm, rtMutexInit]
  refine ⟨fun ho => by simp [howner] at ho, ?_⟩
  simp [howner, takes, releases, inFlight, h.log]

/-! ## What a move preserves -/

section

variable {s s' : State T M} {k : Kernel T M} {m : M} {t : T}

variable (h : Balanced s) {c : Call T M}

include h

lemma Balanced.ret {mx : Mutex T}
    (hc : ∀ u m', m' ≠ m → c ≠ .took u m' rtEok ∧ c ≠ .released u m' rtEok)
    (hh : ∀ {t}, mx.owner = some t → 1 ≤ mx.hold ∧ mx.hold ≤ 255)
    (hbal : ∀ u, (if mx.owner = some u then mx.hold else 0) +
        (releases s u m + if c = .released u m rtEok then 1 else 0) =
      takes s u m + (if c = .took u m rtEok then 1 else 0) +
        if s.pend u = some m ∧ mx.owner = some u then 1 else 0) :
    Balanced (s.ret k m mx c) := by
  refine ⟨?_, ?_⟩
  · intro m' t ho
    by_cases e : m' = m
    · subst e
      simp only [State.ret, Function.update_self] at ho ⊢
      exact hh ho
    simp only [State.ret, Function.update_of_ne e] at ho ⊢
    exact h.hold ho
  intro u m'
  rw [takes_ret, releases_ret]
  by_cases e : m' = m
  · subst e
    simpa [State.ret, inFlight] using hbal u
  obtain ⟨h1, h2⟩ := hc u m' e
  rw [if_neg h1, if_neg h2]
  simpa [State.ret, inFlight, e] using h.balance u m'

lemma Balanced.hold_eq_one (ho : (s.mutex m).owner = some t)
    (hh : (s.mutex m).drop.hold = 0) : (s.mutex m).hold = 1 := by
  have hb := h.hold ho
  simp only [Mutex.drop] at hh
  omega

lemma Balanced.block {w : T} (hp : s.pend t = none) (ho : (s.mutex m).owner = some w) (hw : w ≠ t) :
    Balanced (s.block k t m) := by
  refine ⟨h.hold, ?_⟩
  intro u m'
  have hfl : inFlight (s.block k t m) u m' = inFlight s u m' := by
    unfold inFlight
    by_cases e : u = t
    · subst e
      by_cases em : m' = m
      · subst em
        simp [State.block, ho, hw]
      simp [State.block, hp, Ne.symm em]
    simp [State.block, e]
  rw [hfl]
  exact h.balance u m'

lemma Balanced.back (hi : Inv s) (hp : s.pend t = some m)
    (hs : (s.kernel.tcb t).stat = .ready) : Balanced (s.resumed t m) := by
  have hg := hi.granted hp
  rw [hs] at hg
  refine ⟨h.hold, ?_⟩
  intro u m'
  have hbal := h.balance u m'
  have htakes : takes (s.resumed t m) u m' =
      takes s u m' + if Call.took t m (s.kernel.tcb t).error = .took u m' rtEok then 1 else 0 := by
    simp [takes, State.resumed, List.count_singleton]
  have hrel : releases (s.resumed t m) u m' = releases s u m' := by
    simp [releases, State.resumed]
  rw [htakes, hrel]
  show (if (s.mutex m').owner = some u then (s.mutex m').hold else 0) + releases s u m' = _
  rw [hbal]
  by_cases e : u = t
  · subst e
    by_cases em : m' = m
    · subst em
      simp [inFlight, State.resumed, hp, hg]
    have hne : s.pend u ≠ some m' := by
      rw [hp]
      simpa using Ne.symm em
    simp [inFlight, State.resumed, hne, Ne.symm em]
  simp [inFlight, State.resumed, e, Ne.symm e]

lemma Balanced.again (ho : (s.mutex m).owner = some t) (hn : (s.mutex m).hold < 255) :
    Balanced (s.ret k m (s.mutex m).again (.took t m rtEok)) := by
  have hold' : (s.mutex m).again.hold = (s.mutex m).hold + 1 := Nat.mod_eq_of_lt (by omega)
  have ho' : (s.mutex m).again.owner = some t := ho
  apply h.ret
  · intro u m' hne
    simp [Ne.symm hne]
  · omega
  intro u
  have hbal := h.balance u m
  simp only [inFlight, ho] at hbal
  by_cases e : t = u
  · subst e
    simp [ho'] at hbal ⊢
    omega
  simpa [ho', e] using hbal

lemma Balanced.grab (hi : Inv s) {p : Nat} (hf : s.Free t) (hv : 0 < (s.mutex m).value) :
    Balanced (s.ret k m ((s.mutex m).grab t p) (.took t m rtEok)) := by
  obtain ⟨-, h2, h3, -⟩ := hi.free_of_value hv
  have hold' : ((s.mutex m).grab t p).hold = 1 := by simp [Mutex.grab, h3]
  apply h.ret
  · intro u m' hne
    simp [Ne.symm hne]
  · omega
  intro u
  have hbal := h.balance u m
  simp only [inFlight, h2, reduceCtorEq, and_false, if_false] at hbal
  by_cases e : t = u
  · subst e
    simp [Mutex.grab, hf.2]
    omega
  simpa [Mutex.grab, e] using hbal

lemma Balanced.fail (hc : ∀ u m', c ≠ .took u m' rtEok ∧ c ≠ .released u m' rtEok) :
    Balanced (s.ret k m (s.mutex m) c) := by
  apply h.ret (fun u m' _ => hc u m') h.hold
  intro u
  rw [if_neg (hc u m).1, if_neg (hc u m).2]
  exact h.balance u m

lemma Balanced.drop (ho : (s.mutex m).owner = some t) (hh : (s.mutex m).drop.hold ≠ 0) :
    Balanced (s.ret k m (s.mutex m).drop (.released t m rtEok)) := by
  have hb := h.hold ho
  have hold' : (s.mutex m).drop.hold + 1 = (s.mutex m).hold := by
    simp only [Mutex.drop] at hh ⊢
    omega
  have ho' : (s.mutex m).drop.owner = some t := ho
  apply h.ret
  · intro u m' hne
    simp [Ne.symm hne]
  · omega
  intro u
  have hbal := h.balance u m
  simp only [inFlight, ho] at hbal
  by_cases e : t = u
  · subst e
    simp [ho'] at hbal ⊢
    omega
  simpa [ho', e] using hbal

lemma Balanced.free (hf : s.Free t) (ho : (s.mutex m).owner = some t)
    (hh : (s.mutex m).drop.hold = 0) :
    Balanced (s.ret k m (s.mutex m).free (.released t m rtEok)) := by
  have hone := h.hold_eq_one ho hh
  apply h.ret
  · intro u m' hne
    simp [Ne.symm hne]
  · intro _ ho'
    simp [Mutex.free] at ho'
  intro u
  have hbal := h.balance u m
  simp only [inFlight, ho] at hbal
  by_cases e : t = u
  · subst e
    simp [Mutex.free, hf.2] at hbal ⊢
    omega
  simpa [Mutex.free, e] using hbal

lemma Balanced.hand {w : T} {p : Nat} (hf : s.Free t) (ho : (s.mutex m).owner = some t)
    (hh : (s.mutex m).drop.hold = 0) (hpw : s.pend w = some m) :
    Balanced (s.ret k m ((s.mutex m).hand w p) (.released t m rtEok)) := by
  have hone := h.hold_eq_one ho hh
  have hold' : ((s.mutex m).hand w p).hold = 1 := by simp [Mutex.hand, hh]
  have ho' : ((s.mutex m).hand w p).owner = some w := rfl
  have hwt : w ≠ t := by
    rintro rfl
    simp [hf.2] at hpw
  apply h.ret
  · intro u m' hne
    simp [Ne.symm hne]
  · omega
  intro u
  have hbal := h.balance u m
  simp only [inFlight, ho] at hbal
  by_cases e : t = u
  · -- `t` has released its last take
    subst e
    simp [ho', hwt, hf.2] at hbal ⊢
    omega
  by_cases ew : w = u
  · -- the take of `w` is in flight
    subst ew
    simp [ho', e, hpw] at hbal ⊢
    omega
  simpa [ho', e, ew] using hbal

lemma balanced_move {a : Action T M} (hi : Inv s) (hn : NestOk s a)
    (hm : Move s a s') : Balanced s' := by
  cases hm with
  | again _ ho => exact h.again ho (hn ho)
  | grab hf ho hv => exact h.grab hi hf hv
  | refuse hf ho => exact h.fail fun u m' => by simp [rtEtimeout, rtEok]
  | wait hf ho hw ht hk => exact h.block hf.2 ho hw
  | back hp hs => exact h.back hi hp hs
  | deny hf ho => exact h.fail fun u m' => by simp [rtError, rtEok]
  | drop _ ho hh => exact h.drop ho hh
  | free hf ho hh hq => exact h.free hf ho hh
  | @hand t m w l hf ho hh hq =>
    rw [(tuned_restore ..).wait hi.blocked] at hq
    exact h.hand hf ho hh (hi.blocked.queued (by simp [hq])).1
  | expire hl hk => exact ⟨h.hold, h.balance⟩

end

/-! ## Exclusion -/

/-- Free: `value` is one, there is no owner, nothing is held, nobody waits. -/
def IsFree (s : State T M) (m : M) : Prop :=
  (s.mutex m).value = 1 ∧ (s.mutex m).owner = none ∧ (s.mutex m).hold = 0 ∧
    s.kernel.queue (.wait m) = []

/-- Held: `value` is zero, there is an owner, and `hold` is the number of its takes that it has
not released, a take that it has been granted and that has not returned yet included. -/
def IsHeld (s : State T M) (m : M) : Prop :=
  ∃ t, (s.mutex m).value = 0 ∧ (s.mutex m).owner = some t ∧ 1 ≤ (s.mutex m).hold ∧
    (s.mutex m).hold + releases s t m = takes s t m + inFlight s t m

lemma free_xor_held {s : State T M} (hi : Inv s) (hb : Balanced s) (m : M) :
    Xor (IsFree s m) (IsHeld s m) := by
  rcases hi.shape m with hfree | ⟨hv, t, ho⟩
  · left
    refine ⟨hfree, ?_⟩
    rintro ⟨t, hz, -⟩
    omega
  right
  have hbal := hb.balance t m
  rw [if_pos ho] at hbal
  refine ⟨⟨t, hv, ho, (hb.hold ho).1, hbal⟩, ?_⟩
  rintro ⟨h1, -⟩
  omega

lemma owner_of_took {a : Action T M} (hi : Inv s) (hm : Move s a s') {t : T}
    {m : M} {e : Int} (hlog : s'.log = s.log ++ [.took t m e]) :
    (s'.mutex m).owner = some t ↔ e = rtEok := by
  cases hm with
  | again hf ho =>
    obtain ⟨rfl, rfl, rfl⟩ : _ = t ∧ _ = m ∧ _ = e := by simpa [State.ret] using hlog
    simpa [State.ret, Mutex.again] using ho
  | grab hf ho hv =>
    obtain ⟨rfl, rfl, rfl⟩ : _ = t ∧ _ = m ∧ _ = e := by simpa [State.ret] using hlog
    simp [State.ret, Mutex.grab]
  | refuse hf ho =>
    obtain ⟨rfl, rfl, rfl⟩ : _ = t ∧ _ = m ∧ _ = e := by simpa [State.ret] using hlog
    simpa [State.ret, rtEtimeout, rtEok] using ho
  | wait hf ho hw ht hk => simp [State.block] at hlog
  | back hp hs =>
    obtain ⟨rfl, rfl, rfl⟩ : _ = t ∧ _ = m ∧ _ = e := by simpa [State.resumed] using hlog
    have hg := hi.granted hp
    simpa [State.resumed, hs] using hg
  | deny hf ho => simp [State.ret] at hlog
  | drop hf ho hh => simp [State.ret] at hlog
  | free hf ho hh hq => simp [State.ret] at hlog
  | hand hf ho hh hq => simp [State.ret] at hlog
  | expire hl hk => simp at hlog

lemma release_of_not_owner {t : T} {m : M}
    (ho : (s.mutex m).owner ≠ some t) (hm : Move s (.release t m) s') :
    s' = { s with kernel := s.kernel.setError t (-rtError)
                  log := s.log ++ [.released t m (-rtError)] } := by
  cases hm with
  | deny hf ho => simp [State.ret]
  | drop hf ho' hh => exact absurd ho' ho
  | free hf ho' hh hq => exact absurd ho' ho
  | hand hf ho' hh hq => exact absurd ho' ho

/-- **Mutual exclusion and hand-off.** In every state of every run in which no counter wraps,
each mutex is free or held, and not both; a take that returns `RT_EOK` has made its caller the
owner, one that returns an error has not; and a release by a thread that is not the owner changes
nothing but the error number of that thread. -/
theorem mutex_exclusion {s₀ s : State T M} {as : List (Action T M)} (hs : Start s₀)
    (hn : Meets step NestOk s₀ as) (h : exec step s₀ as = some s) :
    (∀ m, Xor (IsFree s m) (IsHeld s m)) ∧
    (∀ a s', step s a = some s' → ∀ t m e, s'.log = s.log ++ [.took t m e] →
      ((s'.mutex m).owner = some t ↔ e = rtEok)) ∧
    (∀ t m s', step s (.release t m) = some s' → (s.mutex m).owner ≠ some t →
      s' = { s with kernel := s.kernel.setError t (-rtError)
                    log := s.log ++ [.released t m (-rtError)] }) := by
  have hinv : Inv s ∧ Balanced s := by
    apply inv_of_meets _ ⟨inv_start hs, balanced_start hs⟩
      hn h
    intro u a u' hu hna hstep
    have hm := move_of_step hstep
    exact ⟨inv_move hu.1 hm, balanced_move hu.2 hu.1 hna hm⟩
  refine ⟨free_xor_held hinv.1 hinv.2, ?_, ?_⟩
  · intro a s' hstep t m e hlog
    exact owner_of_took hinv.1 (move_of_step hstep) hlog
  intro t m s' hstep ho
  exact release_of_not_owner ho (move_of_step hstep)

end

def twoThreads : State (Fin 2) Unit := ready ![20, 10] fun _ => .fifo

/-- The first thread takes the mutex twice; the second one waits for it with a time limit, gets
it with the second release, and its take returns. -/
def handOff : List (Action (Fin 2) Unit) :=
  [.take 0 () 0, .take 0 () (-1), .take 1 () 5, .release 0 (), .release 0 (), .back 1]

theorem mutex_exclusion_handOff : Start twoThreads ∧ Meets step NestOk twoThreads handOff ∧
      ∃ s, exec step twoThreads handOff = some s ∧ (s.mutex ()).owner = some 1 ∧
        Xor (IsFree s ()) (IsHeld s ()) := by
  have hstart : Start twoThreads := start_ready _ _
  have hn : Meets step NestOk twoThreads handOff := by decide +kernel
  obtain ⟨s, hs, ho⟩ : ∃ s, exec step twoThreads handOff = some s ∧
      (s.mutex ()).owner = some 1 := by decide +kernel
  exact ⟨hstart, hn, s, hs, ho, (mutex_exclusion hstart hn hs).1 ()⟩

end NbIot.Mutexes
