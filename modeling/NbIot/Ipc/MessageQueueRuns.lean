import NbIot.Ipc.MessageQueueSlots

/-! # Runs of a message queue

What the calls do to the kernel, and then the invariant over whole runs: `inv_step` is one step,
`slots_conserved` every state of every run.
-/

namespace NbIot.MessageQueues

open Queues Kernel Function List Option Run

/-! ## The kernel -/

variable {T I : Type}

def Frame.list : Option Frame → Option Unit
  | some (.wait _ _ _) => some ()
  | _ => none

def State.pend (s : State T I) (t : T) : Option Unit :=
  if (s.kernel.tcb t).error = -rtError then none else Frame.list (s.call (.inl t))

variable {s s' : State T I} {c : T ⊕ I}

section

lemma pend_congr (herr : ∀ t, (s'.kernel.tcb t).error = (s.kernel.tcb t).error)
    (hl : ∀ t, Frame.list (s'.call (.inl t)) = Frame.list (s.call (.inl t))) :
    s'.pend = s.pend := by
  funext t
  rw [State.pend, State.pend, herr, hl]

variable [DecidableEq T] [DecidableEq I]

variable (h : Blocked s.kernel s.pend) {k : Kernel T Unit} {t : T}

include h

lemma blocked_setCall (hr : s.Running c)
    {f : Option Frame} (hf : Frame.list f = none) : Blocked s.kernel (s.setCall c f).pend := by
  cases c with
  | inl t =>
    have hpend : (s.setCall (.inl t) f).pend = update s.pend t none := by
      funext u
      by_cases hu : u = t
      · simp [State.pend, State.setCall, hu, hf]
      simp [State.pend, State.setCall, hu]
    rw [hpend]
    exact h.finish hr
  | inr i =>
    exact h

lemma blocked_giveUp (hs : (s.kernel.tcb t).stat = .ready) (e : Int) :
    Blocked (s.kernel.setError t e)
      (State.pend { s.setCall (.inl t) none with kernel := s.kernel.setError t e }) := by
  have hb := blocked_setCall (c := .inl t) (f := none) h hs rfl
  have hp : (s.setCall (.inl t) none).pend t = none := by
    simp [State.pend, State.setCall, Frame.list]
  have hpend : State.pend { s.setCall (.inl t) none with kernel := s.kernel.setError t e } =
      (s.setCall (.inl t) none).pend := by
    funext u
    by_cases hu : u = t
    · simp [State.pend, State.setCall, hu, Frame.list]
    simp [State.pend, State.setCall, hu]
  rw [hpend]
  exact hb.setError hp e

lemma blocked_wait (hs : (s.kernel.tcb t).stat = .ready)
    {flag : IpcFlag} {time : Int} {size : Nat} {timeout tickDelta : BitVec 32}
    (hk : (s.kernel.setError t rtEok).rtIpcWait () t flag time = some k) :
    Blocked k (State.pend
      { s.setCall (.inl t) (some (.wait size timeout tickDelta)) with kernel := k }) := by
  have hb := blocked_giveUp h hs rtEok
  have hnone : State.pend { s.setCall (.inl t) none with
      kernel := s.kernel.setError t rtEok } t = none := by
    simp [State.pend, State.setCall, Frame.list]
  have hpark := hb.wait_spec (by simpa using hs) hnone (by simp) hk
  have herr := (hpark.blocked.queued ((hpark.mem () t).mpr (.inr ⟨rfl, rfl⟩))).2.2
  have hpend : State.pend { s.setCall (.inl t) (some (.wait size timeout tickDelta)) with
      kernel := k } = update (State.pend { s.setCall (.inl t) none with
        kernel := s.kernel.setError t rtEok }) t (some ()) := by
    funext u
    by_cases hu : u = t
    · simp [State.pend, State.setCall, hu, herr, Frame.list, rtEok, rtError]
    simp [State.pend, State.setCall, hu, hpark.other u hu]
  rw [hpend]
  exact hpark.blocked

lemma blocked_link (hr : s.Running c) : Blocked (s.kernel.resumeFirst ())
      (State.pend { s.setCall c none with kernel := s.kernel.resumeFirst () }) := by
  have hb := blocked_setCall (f := none) h hr rfl
  have hpend : State.pend { s.setCall c none with kernel := s.kernel.resumeFirst () } =
      (s.setCall c none).pend :=
    pend_congr (fun t => h.resumeFirst_error () t) fun _ => rfl
  rw [hpend]
  exact hb.resumeFirst ()

omit [DecidableEq I] in
lemma blocked_reset : ∃ k, s.kernel.rtIpcListResumeAll () = some k ∧
      Blocked k (State.pend { s with kernel := k }) := by
  obtain ⟨k, hk, ha⟩ := h.resumeAll ()
  refine ⟨k, hk, ?_⟩
  have hpend : State.pend { s with kernel := k } =
      fun t => if t ∈ s.kernel.queue (.wait ()) then none else s.pend t := by
    funext t
    by_cases ht : t ∈ s.kernel.queue (.wait ())
    · simp [State.pend, ht, (ha.aborted t ht).2]
    simp [State.pend, ht, ha.other t ht]
  rw [hpend]
  exact ha.blocked

omit [DecidableEq I] in
lemma blocked_timeout (hl : (s.kernel.tcb t).timer.linked = true)
    (hk : s.kernel.rtThreadTimeout t = some k) : Blocked k (State.pend { s with kernel := k }) := by
  obtain ⟨-, o, hm⟩ := h.timed hl
  obtain ⟨-, htcb⟩ := Blocked.timeout_tcb hk
  have herr := (h.queued hm).2.2
  have hpend : State.pend { s with kernel := k } = s.pend := by
    funext u
    by_cases hu : u = t
    · simp [State.pend, hu, htcb, herr, Tcb.expired, rtEok, rtError, rtEtimeout]
    simp [State.pend, hu, htcb]
  rw [hpend]
  exact h.timeout hk

end

/-! ## Places -/

section

variable {s : State T I} {free queued : List Slot} {msg : Slot}

lemma at_of_held (free queued : List Slot) (h : held s.call c = some msg) :
    s.At free queued msg (.filling c) ∨ s.At free queued msg (.draining c) := by
  cases hc : s.call c with
  | none => simp [held, hc] at h
  | some f =>
    cases f with
    | send m buffer =>
      obtain rfl : m = msg := by simpa [held, hc, Frame.slot] using h
      exact .inl (.inl ⟨buffer, hc⟩)
    | fill m urgent buffer done =>
      obtain rfl : m = msg := by simpa [held, hc, Frame.slot] using h
      exact .inl (.inr ⟨urgent, buffer, done, hc⟩)
    | wait size timeout tickDelta => simp [held, hc, Frame.slot] at h
    | drain m size buffer =>
      obtain rfl : m = msg := by simpa [held, hc, Frame.slot] using h
      exact .inr ⟨size, buffer, hc⟩

lemma held_of_at (h : s.At free queued msg (.filling c) ∨ s.At free queued msg (.draining c)) :
    held s.call c = some msg := by
  rcases h with (⟨buffer, hc⟩ | ⟨urgent, buffer, done, hc⟩) | ⟨size, buffer, hc⟩ <;>
    simp [held, hc, Frame.slot]

lemma not_fill_and_drain {m : Slot}
    (hf : s.At free queued msg (.filling c)) (hd : s.At free queued m (.draining c)) : False := by
  obtain ⟨size, buffer, hc⟩ := hd
  rcases hf with ⟨buffer', hc'⟩ | ⟨urgent, buffer', done, hc'⟩ <;> simp [hc] at hc'

lemma place_unique {n : Nat} (h : Custody {msg | msg < n} (free ++ queued) (held s.call))
    (hm : msg < n) : ∃! p, s.At free queued msg p := by
  have hdisj := (nodup_append.mp h.nodup).2.2
  have hheld : ∀ {d}, s.At free queued msg (.filling d) ∨ s.At free queued msg (.draining d) →
      msg ∉ free ∧ msg ∉ queued := by
    intro d hd
    have hnot := h.apart (held_of_at hd)
    exact ⟨fun hf => hnot (by simp [hf]), fun hq => hnot (by simp [hq])⟩
  have hsame : ∀ {d e}, s.At free queued msg (.filling d) ∨ s.At free queued msg (.draining d) →
      s.At free queued msg (.filling e) ∨ s.At free queued msg (.draining e) → d = e :=
    fun hd he => h.unique (held_of_at hd) (held_of_at he)
  have hone : ∀ p p', s.At free queued msg p → s.At free queued msg p' → p = p' := by
    intro p p' hp hp'
    cases p with
    | free =>
      cases p' with
      | free => rfl
      | queued => exact absurd rfl (hdisj msg hp msg hp')
      | filling d => exact absurd hp (hheld (.inl hp')).1
      | draining d => exact absurd hp (hheld (.inr hp')).1
    | queued =>
      cases p' with
      | free => exact absurd rfl (hdisj msg hp' msg hp)
      | queued => rfl
      | filling d => exact absurd hp (hheld (.inl hp')).2
      | draining d => exact absurd hp (hheld (.inr hp')).2
    | filling d =>
      cases p' with
      | free => exact absurd hp' (hheld (.inl hp)).1
      | queued => exact absurd hp' (hheld (.inl hp)).2
      | filling e => rw [hsame (.inl hp) (.inl hp')]
      | draining e =>
        obtain rfl := hsame (.inl hp) (.inr hp')
        exact (not_fill_and_drain hp hp').elim
    | draining d =>
      cases p' with
      | free => exact absurd hp' (hheld (.inr hp)).1
      | queued => exact absurd hp' (hheld (.inr hp)).2
      | filling e =>
        obtain rfl := hsame (.inr hp) (.inl hp')
        exact (not_fill_and_drain hp' hp).elim
      | draining e => rw [hsame (.inr hp) (.inr hp')]
  obtain ⟨p, hp⟩ : ∃ p, s.At free queued msg p := by
    rcases (h.cover msg).mp hm with hl | ⟨c, hc⟩
    · rcases mem_append.mp hl with hf | hq
      · exact ⟨.free, hf⟩
      exact ⟨.queued, hq⟩
    rcases at_of_held free queued hc with hf | hd
    · exact ⟨.filling c, hf⟩
    exact ⟨.draining c, hd⟩
  exact ⟨p, hp, fun p' hp' => hone p' p hp' hp⟩

lemma lt_of_at {n : Nat} (h : Custody {msg | msg < n} (free ++ queued) (held s.call))
    {p : Place (T ⊕ I)} (hp : s.At free queued msg p) : msg < n := by
  refine (h.cover msg).mpr ?_
  cases p with
  | free => exact .inl (mem_append_left _ hp)
  | queued => exact .inl (mem_append_right _ hp)
  | filling c => exact .inr ⟨c, held_of_at (.inl hp)⟩
  | draining c => exact .inr ⟨c, held_of_at (.inr hp)⟩

end

/-! ## What a step preserves -/

/-- The receivers wait where they should, and what the calls have done is what `Spec` allows, the
queue holding its messages. -/
structure Inv [DecidableEq T] [DecidableEq I] (s : State T I) : Prop where
  blocked : Blocked s.kernel s.pend
  content : ∃ sp free queued, exec (Spec.step s.mq.msgSize) Spec.empty s.log = some sp ∧
    Content s.mq s.call sp free queued

section

variable [DecidableEq T] [DecidableEq I] {timeout tickDelta : BitVec 32} {size : Nat} {buffer : Msg}

lemma spec_note {n : Nat} {log : List (Event (T ⊕ I))} {sp sp' : Spec (T ⊕ I)}
    {e : Event (T ⊕ I)} (h : exec (Spec.step n) Spec.empty log = some sp)
    (he : sp.step n e = some sp') : exec (Spec.step n) Spec.empty (log ++ [e]) = some sp' := by
  rw [exec_append, h]
  exact exec_cons_eq_some.mpr ⟨sp', he, rfl⟩

lemma inv_start (h : Start s) : Inv s := by
  have hheld : ∀ c, held s.call c = none := fun c => by simp [held, h.call]
  have hnew : ∀ next data msgSize n flag, s.mq = newQueue next data msgSize (n % 2 ^ 16) flag →
      ∃ sp free queued, exec (Spec.step s.mq.msgSize) Spec.empty s.log = some sp ∧
        Content s.mq s.call sp free queued := by
    intro next data msgSize n flag hmq
    refine ⟨Spec.empty, (List.range (n % 2 ^ 16)).reverse, [], by rw [h.log]; rfl, ?_⟩
    rw [hmq]
    refine ⟨lists_newQueue next data msgSize _ flag, ?_, Nat.mod_lt _ (by decide), .nil, ?_⟩
    · refine Custody.of_nodup ?_ (fun msg => ?_) hheld
      · simpa using nodup_range
      simp [newQueue]
    intro c f hf
    rw [h.call] at hf
    simp at hf
  refine ⟨.of_empty (fun _ => h.wait) h.timer fun t => by simp [State.pend, h.call, Frame.list], ?_⟩
  obtain ⟨next, data, msgSize, n, flag, hmq | hmq⟩ := h.mq
  · exact hnew _ _ _ _ _ hmq
  exact hnew _ _ _ _ _ hmq

lemma Inv.failed (h : Inv s) (e : Int) : Inv (s.note (.failed c e)) := by
  obtain ⟨sp, free, queued, hsp, hcontent⟩ := h.content
  exact ⟨h.blocked, sp, free, queued, spec_note hsp rfl, hcontent⟩

lemma inv_takeSlot (h : Inv s) (hi : s.Idle c) {f : Slot → Frame}
    (hslot : ∀ msg, (f msg).slot = some msg)
    (hok : ∀ msg sp, (f msg).Ok s.mq sp c) (ht : takeSlot s c buffer f = some s') : Inv s' := by
  unfold takeSlot at ht
  split at ht
  · simp at ht
  split at ht
  · cases ht
    exact h.failed _
  split at ht
  · cases ht
    exact h.failed _
  rename_i msg hfree
  cases ht
  obtain ⟨sp, free, queued, hsp, hcontent⟩ := h.content
  have hlist : Frame.list (some (f msg)) = none := by
    have := hslot msg
    cases hf : f msg with
    | wait size timeout tickDelta => simp [hf, Frame.slot] at this
    | send msg buffer => rfl
    | fill msg urgent buffer done => rfl
    | drain msg size buffer => rfl
  obtain ⟨rest, hrest⟩ := hcontent.takeFree (by simp [held, hi.2]) hfree (hslot msg)
    (hok msg sp)
  exact ⟨blocked_setCall h.blocked hi.1 hlist, sp, rest, queued, hsp, hrest⟩

lemma inv_takeMessage (h : Inv s) (hr : s.Running c) (hold : held s.call c = none)
    (ht : takeMessage s c size = some s') : Inv s' := by
  obtain ⟨⟨msg, q⟩, hu, rfl⟩ := map_eq_some_iff.mp ht
  obtain ⟨sp, free, queued, hsp, hcontent⟩ := h.content
  obtain ⟨rest, m, ms, hqueue, hcontent'⟩ := hcontent.takeFirst hold hu
    (if s.mq.msgSize < size then s.mq.msgSize else size)
  refine ⟨blocked_setCall h.blocked hr rfl, _, free, rest, ?_, hcontent'⟩
  have hsize : q.countDown.msgSize = s.mq.msgSize := (unlinkFirst_same hu).2
  have hmin : (if s.mq.msgSize < size then s.mq.msgSize else size) = min size s.mq.msgSize := by
    split <;> omega
  rw [hmin]
  show exec (Spec.step q.countDown.msgSize) Spec.empty (s.log ++ [.taken c size]) = _
  rw [hsize]
  refine spec_note hsp ?_
  simp only [Spec.step, hqueue]

lemma inv_recvLoop (h : Inv s) (hr : s.Running c) (hold : held s.call c = none)
    (hl : recvLoop s c size timeout tickDelta = some s') :
    Inv s' := by
  unfold recvLoop at hl
  split at hl
  · cases c with
    | inr i => simp at hl
    | inl t =>
      obtain ⟨sp, free, queued, hsp, hcontent⟩ := h.content
      simp only at hl
      split at hl
      · cases hl
        exact ⟨blocked_giveUp h.blocked hr _, sp, free, queued, spec_note hsp rfl,
          hcontent.idle hold rfl⟩
      obtain ⟨k, hk, rfl⟩ := map_eq_some_iff.mp hl
      exact ⟨blocked_wait h.blocked hr hk, sp, free, queued, hsp, hcontent.idle hold rfl⟩
  exact inv_takeMessage h hr hold hl

lemma inv_recvBack (h : Inv s) {t : T} (hs : (s.kernel.tcb t).stat = .ready)
    (hc : s.call (.inl t) = some (.wait size timeout tickDelta))
    (hb : recvBack s t size timeout tickDelta = some s') : Inv s' := by
  have hold : held s.call (.inl t) = none := by simp [held, hc, Frame.slot]
  unfold recvBack at hb
  split at hb
  · cases hb
    obtain ⟨sp, free, queued, hsp, hcontent⟩ := h.content
    exact ⟨blocked_setCall (c := .inl t) h.blocked hs rfl, sp, free, queued, spec_note hsp rfl,
      hcontent.idle hold rfl⟩
  exact inv_recvLoop (c := .inl t) h hs hold hb

lemma inv_control (h : Inv s) (hc : rtMqControl s = some s') : Inv s' := by
  obtain ⟨k, hk, hc⟩ := bind_eq_some_iff.mp hc
  obtain ⟨q, hq, rfl⟩ := map_eq_some_iff.mp hc
  obtain ⟨k', hk', hb⟩ := blocked_reset h.blocked
  obtain rfl := Option.some.inj (hk.symm.trans hk')
  obtain ⟨sp, free, queued, hsp, hcontent⟩ := h.content
  obtain ⟨q', free', hq', hcontent'⟩ := hcontent.reset
  obtain rfl := Option.some.inj (hq.symm.trans hq')
  refine ⟨hb, _, free', [], ?_, hcontent'⟩
  show exec (Spec.step q.msgSize) Spec.empty (s.log ++ [.reset]) = _
  rw [(releaseAll_same hq).2]
  exact spec_note hsp rfl

lemma inv_linkSlot (h : Inv s) (hr : s.Running c) {msg : Slot} {urgent : Bool}
    {done : Nat} (hc : s.call c = some (.fill msg urgent buffer done))
    (hdone : buffer[done]? = none) : Inv (linkSlot s c msg urgent buffer) := by
  obtain ⟨sp, free, queued, hsp, hcontent⟩ := h.content
  cases urgent with
  | false =>
    exact ⟨blocked_link h.blocked hr, _, free, queued ++ [msg], spec_note hsp rfl,
      hcontent.append hc hdone⟩
  | true =>
    exact ⟨blocked_link h.blocked hr, _, free, msg :: queued, spec_note hsp rfl,
      hcontent.prepend hc hdone⟩

lemma inv_work (h : Inv s) (hr : s.Running c) {f : Frame} (hc : s.call c = some f)
    (hw : work s c f = some s') : Inv s' := by
  obtain ⟨sp, free, queued, hsp, hcontent⟩ := h.content
  cases f with
  | send msg buffer =>
    cases hw
    have hold : held s.call c = some msg := by simp [held, hc, Frame.slot]
    have hl : Lists (s.mq.setNext msg none) free queued :=
      ⟨hcontent.lists.setNext (hcontent.custody.apart hold) none, hcontent.lists.entry⟩
    have hwrite : Content (s.mq.setNext msg none)
        (update s.call c (some (.fill msg false buffer 0))) sp free queued := by
      refine hcontent.write hold hl rfl (fun m hm => ?_) rfl ?_
      · exact ⟨rfl, update_of_ne hm _ _⟩
      exact ⟨by exact stored_nil _, fun _ => update_self _ _ _⟩
    exact ⟨blocked_setCall h.blocked hr rfl, sp, free, queued, hsp, hwrite⟩
  | fill msg urgent buffer done =>
    have hold : held s.call c = some msg := by simp [held, hc, Frame.slot]
    simp only [work] at hw
    split at hw
    · rename_i b hb
      cases hw
      obtain ⟨hs, hn⟩ := hcontent.frames c _ hc
      have hlists := hcontent.lists
      have hl : Lists (s.mq.copyByte msg done b) free queued :=
        ⟨⟨hlists.freeChain, hlists.queueChain, hlists.tail⟩, hlists.entry⟩
      have hwrite : Content (s.mq.copyByte msg done b)
          (update s.call c (some (.fill msg urgent buffer (done + 1)))) sp free
            queued := by
        refine hcontent.write hold hl rfl (fun m hm => ⟨update_of_ne hm _ _, rfl⟩) rfl
          ⟨?_, hn⟩
        have hdata : (s.mq.copyByte msg done b).data msg =
            update (s.mq.data msg) done b := update_self _ _ _
        rw [hdata]
        exact hs.copy hb
      exact ⟨blocked_setCall h.blocked hr rfl, sp, free, queued, hsp, hwrite⟩
    rename_i hdone
    cases hw
    exact inv_linkSlot h hr hc hdone
  | wait size timeout tickDelta =>
    cases c with
    | inr i => exact absurd hw (by simp [work])
    | inl t => exact inv_recvBack h hr hc hw
  | drain msg size buffer =>
    have hold : held s.call c = some msg := by simp [held, hc, Frame.slot]
    simp only [work] at hw
    split at hw
    · cases hw
      rename_i hlt
      obtain ⟨-, hs, hm⟩ := hcontent.frames c _ hc
      have hlen : (buffer ++ [s.mq.data msg buffer.length]).length ≤ size := by
        rw [length_append, length_singleton]
        exact hlt
      exact ⟨blocked_setCall h.blocked hr rfl, sp, free, queued, hsp,
        hcontent.write hold hcontent.lists rfl (fun _ _ => ⟨rfl, rfl⟩) rfl ⟨hlen, hs.snoc, hm⟩⟩
    rename_i hdone
    cases hw
    obtain ⟨⟨m, htaken, hpre⟩, hcontent'⟩ := hcontent.release hc (not_lt.mp hdone)
    refine ⟨blocked_setCall h.blocked hr rfl, _, msg :: free, queued, spec_note hsp ?_, hcontent'⟩
    simp only [Spec.step, htaken]
    rw [if_pos hpre]

lemma inv_step {a : Action T I} (h : Inv s) (hstep : step s a = some s') : Inv s' := by
  cases a with
  | send c buffer =>
    simp only [step] at hstep
    split at hstep
    · rename_i hi
      exact inv_takeSlot (f := fun msg => .send msg buffer) h hi (fun _ => rfl)
        (fun _ _ => trivial) hstep
    simp at hstep
  | urgent c buffer =>
    simp only [step] at hstep
    split at hstep
    · rename_i hi
      exact inv_takeSlot (f := fun msg => .fill msg true buffer 0) h hi (fun _ => rfl)
        (fun _ _ => ⟨by exact stored_nil _, by simp⟩) hstep
    simp at hstep
  | recv c size timeout =>
    simp only [step] at hstep
    split at hstep
    · rename_i hi
      unfold rtMqRecv at hstep
      split at hstep
      · simp at hstep
      split at hstep
      · cases hstep
        exact h.failed _
      exact inv_recvLoop h hi.1 (by simp [held, hi.2]) hstep
    simp at hstep
  | control c =>
    simp only [step] at hstep
    split at hstep
    · exact inv_control h hstep
    simp at hstep
  | work c =>
    simp only [step] at hstep
    split at hstep
    · rename_i f hf
      split at hstep
      · rename_i hr
        exact inv_work h hr hf hstep
      simp at hstep
    simp at hstep
  | tick =>
    cases hstep
    exact ⟨h.blocked, h.content⟩
  | timeout t =>
    simp only [step] at hstep
    split at hstep
    · rename_i hl
      obtain ⟨k, hk, rfl⟩ := map_eq_some_iff.mp hstep
      exact ⟨blocked_timeout h.blocked hl hk, h.content⟩
    simp at hstep

/-- **The slots and the messages.** In every state of every run there are two lists `free` and
`queued` such that: they are what is linked from `msg_queue_free` and `msg_queue_head` on, the tail
is the last slot of `queued` and the counter its length; every slot is at exactly one place, in one
of the lists, once, or in the hands of one sender or one receiver; what the calls have linked,
unlinked and returned is a history of `Spec`, and the slots of `queued` hold its messages, in this
order. A counter that is not zero means that there is a first slot, and a reset comes to its
end. -/
theorem slots_conserved {s₀ s : State T I} {as : List (Action T I)} (hs : Start s₀)
    (h : exec step s₀ as = some s) :
    ∃ free queued sp, Lists s.mq free queued ∧ free.Nodup ∧ queued.Nodup ∧
      (∀ msg, msg < s.mq.maxMsgs → ∃! p, s.At free queued msg p) ∧
      (∀ msg p, s.At free queued msg p → msg < s.mq.maxMsgs) ∧
      (s.mq.tail = none ↔ queued = []) ∧
      exec (Spec.step s.mq.msgSize) Spec.empty s.log = some sp ∧
      List.Forall₂ (fun msg m => Stored (s.mq.data msg) m) queued sp.queue ∧
      (s.mq.entry ≠ 0 → s.mq.unlinkFirst.isSome) ∧ (rtMqControl s).isSome := by
  have hinv : Inv s := inv_of_exec (fun _ _ _ hu hstep => inv_step hu hstep) (inv_start hs) h
  obtain ⟨sp, free, queued, hsp, hcontent⟩ := hinv.content
  obtain ⟨hfree, hqueued, -⟩ := nodup_append.mp hcontent.custody.nodup
  refine ⟨free, queued, sp, hcontent.lists, hfree, hqueued,
    fun msg hm => place_unique hcontent.custody hm, fun msg p hp => lt_of_at hcontent.custody hp,
    ?_, hsp, hcontent.queue, ?_, ?_⟩
  · rw [hcontent.lists.tail]
    exact getLast?_eq_none_iff
  · intro hne
    rw [hcontent.lists.entry] at hne
    cases queued with
    | nil => simp at hne
    | cons msg rest =>
      obtain ⟨q', hq'⟩ := hcontent.lists.unlinkFirst_isSome
      rw [hq']
      rfl
  obtain ⟨k, hk, -⟩ := blocked_reset hinv.blocked
  obtain ⟨q', -, hq', -⟩ := hcontent.reset
  rw [rtMqControl, hk, hq']
  rfl

end

/-! ## A run -/

def twoSlots : State (Fin 2) (Fin 1) where
  kernel := Kernel.ready ![20, 10]
  mq := rtMqInit (fun _ => none) (fun _ _ => 0) 4 16 .fifo
  tick := 0
  call := fun _ => none
  log := []

/-- The first thread has taken its slot when the handler sends; its message is linked later. The
second thread receives one message. -/
def interrupted : List (Action (Fin 2) (Fin 1)) :=
  [.send (.inl 0) [1], .send (.inr 0) [2], .work (.inr 0), .work (.inr 0), .work (.inr 0),
    .work (.inl 0), .work (.inl 0), .work (.inl 0), .recv (.inl 1) 2 0, .work (.inl 1),
    .work (.inl 1), .work (.inl 1)]

theorem slots_conserved_interrupted : ∃ s free queued sp, exec step twoSlots interrupted = some s ∧
      s.log = [.sent (.inr 0) [2], .sent (.inl 0) [1], .taken (.inl 1) 2,
        .received (.inl 1) [2, 0]] ∧
      Lists s.mq free queued ∧ exec (Spec.step s.mq.msgSize) Spec.empty s.log = some sp ∧
      List.Forall₂ (fun msg m => Stored (s.mq.data msg) m) queued sp.queue := by
  obtain ⟨s, hs, hlog⟩ : ∃ s, exec step twoSlots interrupted = some s ∧
      s.log = [.sent (.inr 0) [2], .sent (.inl 0) [1], .taken (.inl 1) 2,
        .received (.inl 1) [2, 0]] := by decide +kernel
  have hstart : Start twoSlots :=
    ⟨⟨_, _, _, _, _, Or.inl rfl⟩, rfl, fun _ => rfl, fun _ => rfl, rfl⟩
  obtain ⟨free, queued, sp, hl, -, -, -, -, -, hsp, hq, -⟩ := slots_conserved hstart hs
  exact ⟨s, free, queued, sp, hs, hlog, hl, hsp, hq⟩

end NbIot.MessageQueues
