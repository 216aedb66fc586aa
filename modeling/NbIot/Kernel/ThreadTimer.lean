import NbIot.Ipc.WaitQueue

/-! # Thread timers and the functions that touch them

A thread timer is started by a thread that begins to wait, and stopped by whoever resumes the
thread. `Tcb.TimerOk` is what is wanted of a control block: the timer is in the timer list for a
suspended thread only. `Calm` says of a piece of the kernel's code that it keeps this, as long as
the thread that runs it, its `caller`, is alive, and that no timer is started but that of the
caller.
-/

namespace NbIot

open Function

/-! ## The timer of one thread -/

/-- The timer of a thread runs for a suspended thread only, and it has its flag then. -/
def Tcb.TimerOk (c : Tcb) : Prop :=
  c.timer.linked = true → c.timer.activated = true ∧ c.stat = .suspend

def Tcb.Alive (c : Tcb) : Prop := c.stat = .ready ∨ c.stat = .suspend
  deriving Decidable

/-- What calm code may do to a control block; `own` is that it belongs to the caller. -/
structure Tcb.Calm (own : Prop) (c c' : Tcb) : Prop where
  ok : (own → c.Alive) → c.TimerOk → c'.TimerOk
  alive : c.Alive → c'.Alive
  starts : c'.timer.linked = true → c.timer.linked = true ∨ own

lemma Tcb.TimerOk.stop {c : Tcb} (h : c.TimerOk) : c.timer.stop.linked = false := by
  unfold Timer.stop
  split
  · rfl
  rename_i hflag
  cases hl : c.timer.linked with
  | false => rfl
  | true => exact absurd (h hl).1 hflag

lemma Timer.linked_of_stop {m : Timer} (h : m.stop.linked = true) : m.linked = true := by
  unfold Timer.stop at h
  split at h
  · cases h
  exact h

namespace Tcb.Calm

variable {own : Prop} {c c' c'' : Tcb}

lemma of_same (hstat : c'.stat = c.stat) (htimer : c'.timer = c.timer) : Calm own c c' := by
  refine ⟨fun _ h => ?_, ?_, ?_⟩
  · unfold TimerOk
    rw [htimer, hstat]
    exact h
  · unfold Alive
    rw [hstat]
    exact id
  rw [htimer]
  exact .inl

lemma refl (c : Tcb) : Calm own c c := of_same rfl rfl

lemma trans (h : Calm own c c') (h' : Calm own c' c'') : Calm own c c'' where
  ok halive hok := h'.ok (fun ho => h.alive (halive ho)) (h.ok halive hok)
  alive hc := h'.alive (h.alive hc)
  starts hl := by
    rcases h'.starts hl with hl' | ho
    · exact h.starts hl'
    exact .inr ho

lemma of_unlinked (halive : c'.Alive) (hok : c.TimerOk → c'.timer.linked = false)
    (hl : c'.timer.linked = true → c.timer.linked = true) : Calm own c c' where
  ok _ h h' := absurd h' (by rw [hok h]; exact Bool.false_ne_true)
  alive _ := halive
  starts h := .inl (hl h)

lemma of_stop (halive : c'.Alive) (htimer : c'.timer = c.timer.stop) : Calm own c c' :=
  of_unlinked halive (fun h => by rw [htimer]; exact h.stop)
    (fun h => by rw [htimer] at h; exact Timer.linked_of_stop h)

lemma of_start (ho : own) (hstat : c.Alive → c'.stat = .suspend)
    (hflag : c'.timer.activated = true) (halive : c.Alive → c'.Alive) : Calm own c c' where
  ok hc _ _ := ⟨hflag, hstat (hc ho)⟩
  alive := halive
  starts _ := .inr ho

end Tcb.Calm

/-! ## What the functions on threads do to the timers -/

/-- Code that changes the control blocks from `f` to `f'` and is run by `caller` is calm. -/
def Calm {T : Type} (caller : Option T) (f f' : T → Tcb) : Prop :=
  ∀ t, Tcb.Calm (caller = some t) (f t) (f' t)

namespace Calm

variable {T : Type} {caller : Option T} {f f' f'' : T → Tcb}

lemma refl (f : T → Tcb) : Calm caller f f := fun t => .refl (f t)

lemma trans (h : Calm caller f f') (h' : Calm caller f' f'') : Calm caller f f'' :=
  fun t => (h t).trans (h' t)

variable [DecidableEq T] {t : T} {c : Tcb}

lemma update (h : Tcb.Calm (caller = some t) (f t) c) : Calm caller f (update f t c) := by
  intro u
  by_cases hu : u = t
  · subst hu
    rw [update_self]
    exact h
  rw [update_of_ne hu]
  exact .refl (f u)

end Calm

namespace Kernel

variable {T O : Type} [DecidableEq T] {caller : Option T}

lemma calm_setError (k : Kernel T O) (t : T) (e : Int) : Calm caller k.tcb (k.setError t e).tcb :=
  .update (.of_same rfl rfl)

lemma calm_suspend (k : Kernel T O) (t : T) : Calm caller k.tcb (k.rtThreadSuspend t).1.tcb := by
  by_cases hs : (k.tcb t).stat = .ready
  · rw [rtThreadSuspend_tcb hs]
    exact .update (.of_stop (.inr rfl) rfl)
  rw [rtThreadSuspend_of_ne hs]
  exact .refl _

variable {k k' : Kernel T O} {t : T}

lemma stat_suspend (h : (k.tcb t).Alive) : ((k.rtThreadSuspend t).1.tcb t).stat = .suspend := by
  by_cases hs : (k.tcb t).stat = .ready
  · rw [rtThreadSuspend_tcb hs, update_self]
  rw [rtThreadSuspend_of_ne hs]
  exact h.resolve_left hs

lemma calm_start {k1 : Kernel T O} {n : Nat} (htcb : k1.tcb = (k.rtThreadSuspend t).1.tcb)
    (h : k1.rtTimerStart t n = some k') : Calm (some t) k.tcb k'.tcb := by
  unfold rtTimerStart at h
  split at h
  · cases h
    intro u
    by_cases hu : u = t
    · subst hu
      have hstat : (k.tcb u).Alive → (k1.tcb u).stat = .suspend := by
        rw [htcb]
        exact stat_suspend
      rw [setTcb_tcb, update_self]
      exact .of_start rfl hstat rfl fun hc => .inr (hstat hc)
    rw [setTcb_tcb, update_of_ne hu, htcb]
    exact k.calm_suspend t u
  cases h

lemma calm_sleep {n : Nat} (h : k.rtThreadSleep t n = some k') : Calm (some t) k.tcb k'.tcb :=
  calm_start rfl h

variable [DecidableEq O] {flag : IpcFlag} {o : O}

lemma calm_resume (k : Kernel T O) (t : T) : Calm caller k.tcb (k.rtThreadResume t).1.tcb := by
  by_cases hs : (k.tcb t).stat = .suspend
  · rw [rtThreadResume_tcb hs]
    exact .update (.of_stop (.inl rfl) rfl)
  rw [rtThreadResume_of_ne hs]
  exact .refl _

lemma calm_control (k : Kernel T O) (t : T) (p : Nat) :
    Calm caller k.tcb (k.rtThreadControl t p).tcb := by
  rw [rtThreadControl_tcb]
  exact .update (.of_same rfl rfl)

lemma tcb_timeout (h : k.rtThreadTimeout t = some k') :
    k'.tcb = update k.tcb t { (k.tcb t).expired with stat := .ready } := by
  unfold rtThreadTimeout at h
  split at h
  · cases h
    simp
  cases h

lemma calm_timeout (h : k.rtThreadTimeout t = some k') : Calm caller k.tcb k'.tcb := by
  rw [tcb_timeout h]
  exact .update (.of_unlinked (.inl rfl) (fun _ => rfl) nofun)

/-! ## What the functions on wait lists do to them -/

lemma calm_wait {time : Int}
    (h : k.rtIpcWait o t flag time = some k') : Calm (some t) k.tcb k'.tcb := by
  unfold rtIpcWait at h
  split at h
  · refine calm_start ?_ h
    rfl
  cases h
  exact k.calm_suspend t

lemma calm_resumeFirst (k : Kernel T O) (o : O) : Calm caller k.tcb (k.resumeFirst o).tcb := by
  unfold resumeFirst
  split
  · exact k.calm_resume _
  exact .refl _

lemma calm_abort (k : Kernel T O) (t : T) : Calm caller k.tcb (k.rtIpcListAbort t).tcb :=
  (k.calm_setError t _).trans (calm_resume _ t)

lemma calm_resumeAllLoop {fuel : Nat}
    (h : k.resumeAllLoop o fuel = some k') : Calm caller k.tcb k'.tcb := by
  induction fuel generalizing k with
  | zero => cases h
  | succ fuel ih =>
    rw [resumeAllLoop] at h
    split at h
    · cases h
      exact .refl _
    exact (k.calm_abort _).trans (ih h)

lemma calm_resumeAll (h : k.rtIpcListResumeAll o = some k') : Calm caller k.tcb k'.tcb :=
  calm_resumeAllLoop h

lemma Stay.calm (h : Stay flag caller k k') : Calm caller k.tcb k'.tcb := by
  cases h with
  | quiet h => exact h ▸ .refl _
  | error t e h => exact h ▸ k.calm_setError t e
  | wait t o time hc h => exact hc ▸ (k.calm_setError t _).trans (calm_wait h)
  | resume o h => exact h ▸ k.calm_resumeFirst o
  | reset o h => exact calm_resumeAll h

end Kernel

end NbIot
