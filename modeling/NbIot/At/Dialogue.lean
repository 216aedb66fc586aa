import NbIot.At.Machine

/-! # The order of the dialogue and the pairing of commands and replies

* `DialogueOrder`: after a reply with `OK` to `AT+NSOCR` the next command is `AT+NSOST` with the
  new socket id, and there is no second `AT+NSOCR` without an `AT+NSOCL` in between. It is lost when
  a socket is created, because the handler of `AT+NSOCR` assigns `SEND_TO_NBIOT` to `atstate` and
  the dialogue starts over.
* `Paired`: the number of unbounded waits, completed or in progress, is never larger than the
  number of commands written. It is lost when a reply has no `OK`, because the link phase stays
  `RECV_FROM_NBIOT`.
-/

namespace NbIot.At

open List

/-! ## The order of the commands -/

def nextCommand : List Event → Option Cmd
  | [] => none
  | .write c :: _ => some c
  | _ :: es => nextCommand es

def NoWrite (es : List Event) : Prop := ∀ c, Event.write c ∉ es

structure DialogueOrder (log : List Event) : Prop where
  /-- After an `OK` for `AT+NSOCR` a message is sent on the new socket. -/
  send : ∀ (pre mid : List Event) (reply : List UInt8) (post : List Event) (c : Cmd),
    log = pre ++ .write .nsocr :: (mid ++ .endWait reply :: post) → NoWrite mid →
      atCheckRecvData reply = true → nextCommand post = some c → c = .nsost (atGetSocketId reply)
  /-- Between two `AT+NSOCR` the first socket is closed. -/
  single : ∀ pre mid post : List Event,
    log = pre ++ .write .nsocr :: (mid ++ .write .nsocr :: post) →
      ∃ (mid₁ : List Event) (reply : List UInt8) (mid₂ : List Event),
        mid = mid₁ ++ .endWait reply :: mid₂ ∧ NoWrite mid₁ ∧ atCheckRecvData reply = true ∧
          .write (.nsocl (atGetSocketId reply)) ∈ mid₂

def Event.isWrite : Event → Bool
  | .write _ => true
  | _ => false

def Event.isEndWait : Event → Bool
  | .endWait _ => true
  | _ => false

def writes (log : List Event) : Nat := log.countP Event.isWrite

def completed (log : List Event) : Nat := log.countP Event.isEndWait

def inProgress : Pc → Nat
  | .wait _ _ => 1
  | _ => 0

def Paired (s : State) : Prop := completed s.log + inProgress s.pc ≤ writes s.log

lemma noWrite_snoc {es : List Event} {e : Event} (h : NoWrite es) (he : e.isWrite = false) :
    NoWrite (es ++ [e]) := by
  intro c hc
  rcases mem_append.mp hc with hc | hc
  · exact h c hc
  rw [mem_singleton] at hc
  subst hc
  exact absurd he (by simp [Event.isWrite])

/-- The last command written is `AT+NSOCR`. -/
def LastNsocr (log : List Event) : Prop :=
  ∃ pre mid, log = pre ++ .write .nsocr :: mid ∧ NoWrite mid

lemma LastNsocr.snoc {log : List Event} {e : Event} (h : LastNsocr log)
    (he : e.isWrite = false) : LastNsocr (log ++ [e]) := by
  obtain ⟨pre, mid, rfl, hmid⟩ := h
  exact ⟨pre, mid ++ [e], by simp, noWrite_snoc hmid he⟩

lemma state_toInt_inj {u v : UdpState} (h : u.toInt = v.toInt) : u = v := by
  have := UdpState.ofInt_toInt u
  rw [h, UdpState.ofInt_toInt] at this
  exact (Option.some.inj this).symm

lemma handler_eq_nsocr {h : Handler} (hst : h.state.toInt = UdpState.createSocket.toInt) :
    h = .nsocr := by
  have := state_toInt_inj hst
  cases h <;> simp [Handler.state] at this ⊢

variable {input : Nat → List UInt8} {rx : List UInt8} {s s' : State}

lemma finish_of_not_ok (h : Handler) (hok : atCheckRecvData rx = false) :
    h.finish s rx = { s with pc := .top, log := s.log ++ [.endWait rx] } := by
  simp [Handler.finish, hok]

lemma finish_of_ok (h : Handler) (hok : atCheckRecvData rx = true) :
    h.finish s rx = h.onOK { s with pc := .top, log := s.log ++ [.endWait rx] } rx := by
  simp [Handler.finish, hok]

/-! ## What a move preserves -/

/-- A reply to `AT+NSOCR` is awaited only after `AT+NSOCR`, and before the next command. -/
def AwaitsNsocr (s : State) : Prop :=
  s.atstate = UdpState.createSocket.toInt → s.linkNbiot = recvFromNbiot → LastNsocr s.log

lemma awaitsNsocr_move (hI : AwaitsNsocr s) (hm : Move s s') : AwaitsNsocr s' := by
  intro hst' hl'
  cases hm with
  | send h hpc hst hl =>
    obtain rfl := handler_eq_nsocr (hst.symm.trans hst')
    exact ⟨s.log, [], rfl, fun c => not_mem_nil⟩
  | enter h hpc hst hl => exact (hI hst' hl').snoc rfl
  | more h rx rx' hpc => exact hI hst' hl'
  | finish h rx hpc hres =>
    rw [finish_log]
    cases hok : atCheckRecvData rx with
    | false =>
      rw [finish_of_not_ok h hok] at hst' hl'
      exact (hI hst' hl').snoc rfl
    | true =>
      rw [finish_of_ok h hok] at hst' hl'
      cases h <;> simp [Handler.onOK, UdpState.toInt, sendToNbiot, recvFromNbiot] at hst' hl'
  | rest pc' hpc hpc' hpoll => exact hI hst' hl'
  | message id len hst => exact absurd (show sendToNbiot = recvFromNbiot from hl') (by decide)

lemma awaitsNsocr_run (input : Nat → List UInt8) (n : Nat) : AwaitsNsocr (run input n) := by
  induction n with
  | zero =>
    intro hst
    exact absurd (show UdpState.autoConnCfg.toInt = UdpState.createSocket.toInt from hst)
      (by decide)
  | succ n ih => exact awaitsNsocr_move ih (move_run input n)

lemma log_after_socket {n : Nat} (hpc : (run input n).pc = .wait .nsocr rx)
    (hres : hasResult rx = true) (hok : atCheckRecvData rx = true) :
    (run input (n + 2)).log = (run input n).log ++ [.endWait rx, .write .nconfig] := by
  have h1 : run input (n + 1) = Handler.nsocr.finish (run input n) rx := by
    rw [run, step, hpc]
    simp [hres]
  rw [finish_of_ok _ hok] at h1
  rw [run, step, h1]
  simp [dispatch, Handler.onOK, UdpState.ofInt, sendToNbiot, nbiotAtcmdNCONFIG, Handler.enter,
    Handler.cmd]

/-! ## When the order is kept -/

/-- Before `AT+NSOCR`, or behind it with replies that have no `OK`. -/
def NoSocket (s : State) : Prop :=
  Event.write .nsocr ∉ s.log ∨
    ∃ pre mid, s.log = pre ++ .write .nsocr :: mid ∧ Event.write .nsocr ∉ pre ∧
      (∀ e ∈ mid, e = .enterWait ∨ ∃ r, e = .endWait r ∧ atCheckRecvData r = false) ∧
      s.atstate = UdpState.createSocket.toInt ∧ s.linkNbiot = recvFromNbiot ∧
      (s.pc = .top ∨ ∃ rx, s.pc = .wait .nsocr rx)

lemma noSocket_move (hI : NoSocket s) (hm : Move s s')
    (hcond : ∀ rx, s.pc = .wait .nsocr rx → hasResult rx = true → atCheckRecvData rx = false) :
    NoSocket s' := by
  rcases hI with hnever | ⟨pre, mid, hlog, hpre, hmid, hst0, hl0, hpc0⟩
  · -- `AT+NSOCR` has not been written yet
    cases hm with
    | send h hpc hst hl =>
      by_cases hh : h = .nsocr
      · subst hh
        exact .inr ⟨s.log, [], rfl, hnever, by simp, hst, rfl, Or.inl hpc⟩
      refine .inl fun hmem => ?_
      rcases mem_append.mp hmem with hmem | hmem
      · exact hnever hmem
      cases h <;> simp [Handler.cmd] at hmem hh
    | enter h hpc hst hl => exact .inl (by simpa using hnever)
    | more h rx rx' hpc => exact .inl hnever
    | finish h rx hpc hres => exact .inl (by rw [finish_log]; simpa using hnever)
    | rest pc' hpc hpc' hpoll => exact .inl hnever
    | message id len hst => exact .inl hnever
  -- `AT+NSOCR` is the last command
  right
  have hsnoc : ∀ e : Event, (e = .enterWait ∨ ∃ r, e = .endWait r ∧ atCheckRecvData r = false) →
      ∀ e' ∈ mid ++ [e], e' = .enterWait ∨ ∃ r, e' = .endWait r ∧ atCheckRecvData r = false := by
    intro e he e' he'
    rcases mem_append.mp he' with he' | he'
    · exact hmid e' he'
    rw [mem_singleton] at he'
    exact he' ▸ he
  -- no other handler can be the one that waits
  have hwait : ∀ h rx, s.pc = .wait h rx → h = .nsocr := by
    intro h rx hpc
    rcases hpc0 with hpc0 | ⟨r, hpc0⟩
    · rw [hpc] at hpc0
      simp at hpc0
    rw [hpc] at hpc0
    exact (Pc.wait.inj hpc0).1
  cases hm with
  | send h hpc hst hl => exact absurd (hl.symm.trans hl0) (by decide)
  | enter h hpc hst hl =>
    obtain rfl := handler_eq_nsocr (hst.symm.trans hst0)
    exact ⟨pre, mid ++ [.enterWait], by simp [hlog], hpre, hsnoc _ (.inl rfl), hst0, hl0,
      Or.inr ⟨[], rfl⟩⟩
  | more h rx rx' hpc =>
    obtain rfl := hwait h rx hpc
    exact ⟨pre, mid, hlog, hpre, hmid, hst0, hl0, Or.inr ⟨rx', rfl⟩⟩
  | finish h rx hpc hres =>
    obtain rfl := hwait h rx hpc
    have hnok := hcond rx hpc hres
    rw [finish_of_not_ok _ hnok]
    exact ⟨pre, mid ++ [.endWait rx], by simp [hlog], hpre, hsnoc _ (.inr ⟨rx, rfl, hnok⟩),
      hst0, hl0, Or.inl rfl⟩
  | rest pc' hpc hpc' hpoll =>
    refine ⟨pre, mid, hlog, hpre, hmid, hst0, hl0, ?_⟩
    cases pc' with
    | top => exact .inl rfl
    | wait h rx => exact absurd rfl (hpc' h rx)
    | poll i rx => exact absurd ((hpoll i rx rfl).symm.trans hst0) (by decide)
  | message id len hst => exact absurd (hst.symm.trans hst0) (by decide)

lemma dialogueOrder_of_noSocket (hI : NoSocket s) : DialogueOrder s.log := by
  rcases hI with hnever | ⟨pre, mid, hlog, hpre, hmid, -, -, -⟩
  · constructor
    · intro pre mid reply post c hlog
      exact absurd (by simp [hlog]) hnever
    intro pre mid post hlog
    exact absurd (by simp [hlog]) hnever
  have hmid' : Event.write .nsocr ∉ mid := by
    intro hmem
    rcases hmid _ hmem with h | ⟨r, h, -⟩
    · simp at h
    simp at h
  rw [hlog]
  constructor
  · intro pre' mid' reply post c heq _ hok _
    obtain ⟨-, -, rfl⟩ := (append_cons_inj_of_notMem hpre hmid').mp heq
    rcases hmid (.endWait reply) (by simp) with h | ⟨r, h, hr⟩
    · simp at h
    obtain rfl := Event.endWait.inj h
    rw [hok] at hr
    simp at hr
  intro pre' mid' post heq
  obtain ⟨-, -, rfl⟩ := (append_cons_inj_of_notMem hpre hmid').mp heq
  exact absurd (by simp) hmid'

/-- **The dialogue order.** A run keeps the order of the UDP dialogue if and only if no reply to
`AT+NSOCR` contains `OK`: creating a socket always breaks it. -/
theorem dialogueOrder_iff (input : Nat → List UInt8) : (∀ n, DialogueOrder (run input n).log) ↔
      ∀ n rx, (run input n).pc = .wait .nsocr rx → hasResult rx = true →
        atCheckRecvData rx = false := by
  constructor
  · intro hord n rx hpc hres
    by_contra hok
    rw [Bool.not_eq_false] at hok
    obtain ⟨hst, hl⟩ := (shape_run input n).wait _ _ hpc
    obtain ⟨pre, mid, hlog, hmid⟩ := awaitsNsocr_run input n hst hl
    have hlog2 := log_after_socket hpc hres hok
    have hsplit : (run input (n + 2)).log =
        pre ++ .write .nsocr :: (mid ++ .endWait rx :: [.write .nconfig]) := by
      rw [hlog2, hlog]
      simp
    have := (hord (n + 2)).send pre mid rx [.write .nconfig] .nconfig hsplit hmid hok rfl
    simp at this
  intro hcond n
  have hinv : ∀ m, NoSocket (run input m) := by
    intro m
    induction m with
    | zero => exact .inl (by simp [run, init])
    | succ m ih => exact noSocket_move ih (move_run input m) (hcond m)
  exact dialogueOrder_of_noSocket (hinv n)

/-- A module that answers `OK` to every command, and to `AT+NSOCR` with the socket number `0`. -/
def socketZero (n : Nat) : List UInt8 :=
  if n = 6 then [0x0d, 0x0a, 0x30, 0x0d, 0x0a, 0x0d, 0x0a, 0x4f, 0x4b, 0x0d, 0x0a]
  else [0x0d, 0x0a, 0x4f, 0x4b, 0x0d, 0x0a]

/-- After the socket has been created, the next command is `AT+NCONFIG`. -/
theorem socketZero_restarts : ¬DialogueOrder (run socketZero 9).log := by
  have hlog : (run socketZero 9).log =
      [.write .nconfig, .enterWait, .endWait (socketZero 2), .write .nsocr, .enterWait,
        .endWait (socketZero 6), .write .nconfig] := by decide +kernel
  intro hord
  have := hord.send [.write .nconfig, .enterWait, .endWait (socketZero 2)] [.enterWait]
    (socketZero 6) [.write .nconfig] .nconfig hlog (by simp [NoWrite]) (by decide +kernel) rfl
  simp at this

/-! ## Commands and replies -/

def Owes (s : State) : Prop :=
  s.linkNbiot = recvFromNbiot ∧ ∃ h : Handler, s.atstate = h.state.toInt

/-- The accounts: one more command than completed waits when a wait is owed, as many
otherwise. -/
structure Balanced (s : State) : Prop where
  owes : Owes s → writes s.log = completed s.log + 1
  even : ¬Owes s → writes s.log = completed s.log

lemma writes_snoc (log : List Event) (e : Event) :
    writes (log ++ [e]) = writes log + if e.isWrite then 1 else 0 := by
  simp [writes]

lemma completed_snoc (log : List Event) (e : Event) :
    completed (log ++ [e]) = completed log + if e.isEndWait then 1 else 0 := by
  simp [completed]

lemma not_owes_of_state {u : UdpState} (hst : s.atstate = u.toInt)
    (hu : ∀ h : Handler, h.state ≠ u) : ¬Owes s := by
  rintro ⟨-, h, hh⟩
  exact hu h (state_toInt_inj (hh.symm.trans hst))

lemma not_owes_of_link (hl : s.linkNbiot = sendToNbiot) : ¬Owes s := by
  rintro ⟨hr, -⟩
  exact absurd (hl.symm.trans hr) (by decide)

lemma not_owes_onOK (s : State) (rx : List UInt8) (h : Handler) : ¬Owes (h.onOK s rx) := by
  cases h with
  | nconfig => exact not_owes_of_link rfl
  | nsocr => exact not_owes_of_link rfl
  | nsost => exact not_owes_of_link rfl
  | nsorf =>
    exact not_owes_of_state (u := .recvMsg) rfl fun h => by cases h <;> simp [Handler.state]
  | nsocl => exact not_owes_of_state (u := .idle) rfl fun h => by cases h <;> simp [Handler.state]

lemma balanced_of_owes (ho : Owes s) (hw : writes s.log = completed s.log + 1) :
    Balanced s := ⟨fun _ => hw, fun hno => absurd ho hno⟩

lemma balanced_of_not_owes (ho : ¬Owes s) (hw : writes s.log = completed s.log) :
    Balanced s := ⟨fun h => absurd h ho, fun _ => hw⟩

lemma balanced_move (sh : Shape s) (hb : Balanced s) (hm : Move s s')
    (hcond : ∀ h rx, s.pc = .wait h rx → hasResult rx = true → atCheckRecvData rx = true) :
    Balanced s' := by
  cases hm with
  | send h hpc hst hl =>
    refine balanced_of_owes ⟨rfl, h, hst⟩ ?_
    have hw := hb.even (not_owes_of_link hl)
    simp only [writes_snoc, completed_snoc, Event.isWrite, Event.isEndWait, if_true,
      Bool.false_eq_true, if_false]
    omega
  | enter h hpc hst hl =>
    refine balanced_of_owes ⟨hl, h, hst⟩ ?_
    have hw := hb.owes ⟨hl, h, hst⟩
    simp only [writes_snoc, completed_snoc, Event.isWrite, Event.isEndWait, Bool.false_eq_true]
    omega
  | more h rx rx' hpc => exact ⟨hb.owes, hb.even⟩
  | finish h rx hpc hres =>
    obtain ⟨hst, hl⟩ := sh.wait h rx hpc
    have hw := hb.owes ⟨hl, h, hst⟩
    have hlog := finish_log (s := s) h rx
    rw [finish_of_ok h (hcond h rx hpc hres)] at hlog ⊢
    refine balanced_of_not_owes (not_owes_onOK _ rx h) ?_
    rw [hlog]
    simp only [writes_snoc, completed_snoc, Event.isWrite, Event.isEndWait, if_true,
      Bool.false_eq_true, if_false]
    omega
  | rest pc' hpc hpc' hpoll => exact ⟨hb.owes, hb.even⟩
  | message id len hst =>
    refine balanced_of_not_owes (not_owes_of_link rfl) ?_
    exact hb.even (not_owes_of_state hst fun h => by cases h <;> simp [Handler.state])

lemma Balanced.paired (sh : Shape s) (hb : Balanced s) : Paired s := by
  unfold Paired
  by_cases ho : Owes s
  · have hw := hb.owes ho
    have hle : inProgress s.pc ≤ 1 := by cases s.pc <;> simp [inProgress]
    omega
  have hw := hb.even ho
  have hz : inProgress s.pc = 0 := by
    cases hpc : s.pc with
    | wait h rx =>
      obtain ⟨hst, hl⟩ := sh.wait h rx hpc
      exact absurd ⟨hl, h, hst⟩ ho
    | top => rfl
    | poll i rx => rfl
  omega

lemma not_paired_after_error {n : Nat} {h : Handler} (hb : Balanced (run input n))
    (hpc : (run input n).pc = .wait h rx) (hres : hasResult rx = true)
    (hnok : atCheckRecvData rx = false) :
    ¬Paired (run input (n + 2)) := by
  obtain ⟨hst, hl⟩ := (shape_run input n).wait h rx hpc
  have hw := hb.owes ⟨hl, h, hst⟩
  have h1 : run input (n + 1) =
      { run input n with pc := .top, log := (run input n).log ++ [.endWait rx] } := by
    rw [run, step, hpc]
    simp [hres, finish_of_not_ok h hnok]
  have hst1 : (run input (n + 1)).atstate = h.state.toInt := by rw [h1]; exact hst
  have hl1 : (run input (n + 1)).linkNbiot = recvFromNbiot := by rw [h1]; exact hl
  have hpc1 : (run input (n + 1)).pc = .top := by rw [h1]
  have hlog1 : (run input (n + 1)).log = (run input n).log ++ [.endWait rx] := by rw [h1]
  have h2 : (run input (n + 2)).pc = .wait h [] ∧
      (run input (n + 2)).log = (run input (n + 1)).log ++ [.enterWait] := by
    have hne : ¬recvFromNbiot = sendToNbiot := by decide
    rw [run, step, hpc1]
    cases h <;> simp [dispatch, hst1, Handler.state, UdpState.ofInt_toInt, nbiotAtcmdNCONFIG,
      nbiotAtcmdNSOCR, nbiotAtcmdNSOST, nbiotAtcmdNSORF, nbiotAtcmdNSOCL, Handler.enter, hl1, hne]
  unfold Paired
  rw [h2.1, h2.2, hlog1]
  simp only [writes_snoc, completed_snoc, Event.isWrite, Event.isEndWait, inProgress, if_true,
    Bool.false_eq_true, if_false]
  omega

/-- **Commands and waits.** In a run every unbounded wait has a command of its own if and only if
every reply that ends such a wait contains `OK`. -/
theorem paired_iff (input : Nat → List UInt8) : (∀ n, Paired (run input n)) ↔
      ∀ n h rx, (run input n).pc = .wait h rx → hasResult rx = true →
        atCheckRecvData rx = true := by
  constructor
  · intro hp
    have hcond : ∀ n, Balanced (run input n) → ∀ h rx, (run input n).pc = .wait h rx →
        hasResult rx = true → atCheckRecvData rx = true := by
      intro n hb h rx hpc hres
      by_contra hok
      rw [Bool.not_eq_true] at hok
      exact not_paired_after_error hb hpc hres hok (hp (n + 2))
    have hb : ∀ n, Balanced (run input n) := by
      intro n
      induction n with
      | zero => exact balanced_of_not_owes (not_owes_of_link rfl) rfl
      | succ n ih => exact balanced_move (shape_run input n) ih (move_run input n) (hcond n ih)
    exact fun n => hcond n (hb n)
  intro hcond n
  have hb : Balanced (run input n) := by
    induction n with
    | zero => exact balanced_of_not_owes (not_owes_of_link rfl) rfl
    | succ n ih => exact balanced_move (shape_run input n) ih (move_run input n) (hcond n)
  exact hb.paired (shape_run input n)

/-- A module that answers `ERROR` to the first command. -/
def errorReply : Nat → List UInt8 := fun _ => strERROR

/-- After the `ERROR` a second wait is entered, with one command written. -/
theorem errorReply_unpaired :
    (run errorReply 5).log = [.write .nconfig, .enterWait, .endWait strERROR, .enterWait] ∧
      ¬Paired (run errorReply 5) := by
  unfold Paired
  decide

end NbIot.At
