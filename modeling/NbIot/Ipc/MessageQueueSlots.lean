import NbIot.Ipc.MessageQueue

/-! # The slots of a message queue

The edits of the two lists of a message queue, the copies, and what they keep. `Content` relates a
queue and the calls on it to the messages of `Spec`: every slot is in one of the two lists or in the
hands of one caller (`Custody`), the slots of the queue hold the messages of `Spec`, and so does the
slot of every caller.
-/

namespace NbIot.MessageQueues

/-! ## The two lists -/

open Queues Kernel Function List
open scoped List

lemma linkFree_chain (next : Slot → Option Slot) (n : Nat) :
    Chain (linkFree next n).1 (linkFree next n).2 (List.range n).reverse := by
  induction n with
  | zero => rfl
  | succ n ih =>
    rw [List.range_succ, reverse_append]
    refine ih.push (by simp [linkFree]) fun b hb => ?_
    have hlt : b < n := by simpa using hb
    exact update_of_ne hlt.ne _ _

lemma lists_newQueue (next : Slot → Option Slot) (data : Slot → Nat → UInt8) (msgSize n : Nat)
    (flag : IpcFlag) : Lists (newQueue next data msgSize n flag) (List.range n).reverse [] :=
  ⟨⟨linkFree_chain next n, rfl, rfl⟩, rfl⟩

variable {q q' : Mq} {free queued : List Slot}

section

variable {msg b : Slot}

lemma Links.setNext (h : Links q free queued) (hm : msg ∉ free ++ queued) (x : Option Slot) :
    Links (q.setNext msg x) free queued := by
  have hne : ∀ b, b ∈ free ++ queued → update q.next msg x b = q.next b := by
    intro b hb
    refine update_of_ne ?_ _ _
    rintro rfl
    exact hm hb
  exact ⟨h.freeChain.congr fun b hb => hne b (by simp [hb]),
    h.queueChain.congr fun b hb => hne b (by simp [hb]), h.tail⟩

lemma Links.takeFree (h : Links q free queued) (hf : q.free = some msg) :
    ∃ rest, free = msg :: rest ∧ Links { q with free := q.next msg } rest queued := by
  have hc := h.freeChain
  rw [hf] at hc
  obtain ⟨rest, rfl, hrest⟩ := hc.of_some
  exact ⟨rest, rfl, hrest, h.queueChain, h.tail⟩

lemma Links.release (h : Links q free queued) (hm : msg ∉ free ++ queued) :
    Links (q.release msg) (msg :: free) queued := by
  have hs := h.setNext hm q.free
  refine ⟨⟨rfl, ?_⟩, hs.queueChain, hs.tail⟩
  have hnext : (q.release msg).next msg = q.free := update_self _ _ _
  rw [hnext]
  exact hs.freeChain

lemma Links.unlinkFirst (h : Links q free queued) (hnd : queued.Nodup)
    (hu : q.unlinkFirst = some (msg, q')) :
    ∃ rest, queued = msg :: rest ∧ Links q' free rest ∧
      q' = { q with head := q.next msg, tail := if q.tail = some msg then none else q.tail } := by
  obtain ⟨m, hhead, hpair⟩ := Option.map_eq_some_iff.mp hu
  obtain ⟨rfl, rfl⟩ := Prod.mk.inj hpair
  have hc := h.queueChain
  rw [hhead] at hc
  obtain ⟨rest, rfl, hrest⟩ := hc.of_some
  refine ⟨rest, rfl, ⟨h.freeChain, hrest, ?_⟩, rfl⟩
  rw [h.tail]
  by_cases hnil : rest = []
  · simp [hnil]
  -- the last slot is not the first one
  rw [getLast?_cons_of_ne_nil hnil, if_neg]
  intro hl
  exact (nodup_cons.mp hnd).1 (mem_of_getLast? hl)

lemma Links.unlinkFirst_isSome (h : Links q free (msg :: queued)) :
    ∃ q', q.unlinkFirst = some (msg, q') := by
  have hhead : q.head = some msg := h.queueChain.1
  exact ⟨_, by rw [Mq.unlinkFirst, hhead]; rfl⟩

lemma next_append_tail (ht : q.tail = some b) : (q.append msg).next b = some msg := by
  simp [Mq.append, ht]

lemma next_append_of_ne (ht : q.tail ≠ some b) : (q.append msg).next b = q.next b := by
  cases h : q.tail with
  | none => simp [Mq.append, h]
  | some tail =>
    have hne : b ≠ tail := fun he => ht (he ▸ h)
    simp [Mq.append, h, update_of_ne hne]

lemma Links.append (h : Links q free queued) (hnd : (free ++ queued).Nodup)
    (hm : msg ∉ free ++ queued) (hn : q.next msg = none) :
    Links (q.append msg) free (queued ++ [msg]) := by
  have hnext : ∀ b, some b ≠ queued.getLast? → (q.append msg).next b = q.next b := by
    intro b hb
    rw [← h.tail] at hb
    exact next_append_of_ne hb.symm
  have hlast : ∀ b ∈ queued.getLast?, (q.append msg).next b = some msg :=
    fun b hb => next_append_tail (h.tail.trans hb)
  have hmem : ∀ b, some b = queued.getLast? → b ∈ queued := fun b hb => mem_of_getLast? hb.symm
  refine ⟨h.freeChain.congr fun b hb => hnext b fun hl => ?_, ?_, ?_⟩
  · exact (nodup_append.mp hnd).2.2 b hb b (hmem b hl) rfl
  · have hend : (q.append msg).next msg = none :=
      (hnext msg fun hl => hm (by simp [hmem msg hl])).trans hn
    have hc := h.queueChain.snoc hend hlast ?_
    · have hhead : (if q.head = none then some msg else q.head) =
          if queued = [] then some msg else q.head := by
        simp [h.queueChain.head_eq]
      show Chain _ (if q.head = none then some msg else q.head) _
      rw [hhead]
      exact hc
    intro b hb
    refine hnext b fun hl => ?_
    -- the last slot stands at the end only
    have hsplit := dropLast_append_getLast? b hl.symm
    have hnd' := (nodup_append.mp hnd).2.1
    rw [← hsplit] at hnd'
    exact (nodup_append.mp hnd').2.2 b hb b (by simp) rfl
  show some msg = (queued ++ [msg]).getLast?
  simp

lemma Links.prepend (h : Links q free queued) (hm : msg ∉ free ++ queued) :
    Links (q.prepend msg) free (msg :: queued) := by
  have hs := h.setNext hm q.head
  refine ⟨hs.freeChain, ⟨rfl, ?_⟩, ?_⟩
  · have hnext : (q.prepend msg).next msg = q.head := update_self _ _ _
    rw [hnext]
    exact hs.queueChain
  show (if q.tail = none then some msg else q.tail) = _
  rw [h.tail]
  cases queued with
  | nil => rfl
  | cons b l => simp

lemma Links.releaseAll (fuel : Nat) (h : Links q free queued) (hnd : (free ++ queued).Nodup)
    (hf : queued.length < fuel) :
    ∃ q', q.releaseAll fuel = some q' ∧ Links q' (queued.reverse ++ free) [] ∧
      q'.maxMsgs = q.maxMsgs ∧ q'.data = q.data ∧
      ∀ b, b ∉ queued → q'.next b = q.next b := by
  induction fuel generalizing q free queued with
  | zero => omega
  | succ fuel ih =>
    cases queued with
    | nil =>
      have hhead : q.head = none := h.queueChain
      refine ⟨q, ?_, h, rfl, rfl, fun _ _ => rfl⟩
      rw [Mq.releaseAll, Mq.unlinkFirst, hhead]
      rfl
    | cons msg rest =>
      obtain ⟨q1, hu⟩ := h.unlinkFirst_isSome
      obtain ⟨rest', he, hl, hq1⟩ := h.unlinkFirst (nodup_append.mp hnd).2.1 hu
      obtain rfl : rest = rest' := (List.cons.inj he).2
      have hnd' : (msg :: (free ++ rest)).Nodup := (perm_middle.nodup_iff).mp hnd
      obtain ⟨q2, hq2, hl2, hmax, hdata, hnext⟩ :=
        ih (hl.release (nodup_cons.mp hnd').1) hnd' (by simpa using hf)
      refine ⟨q2, ?_, ?_, ?_, ?_, ?_⟩
      · rw [Mq.releaseAll, hu]
        exact hq2
      · rwa [reverse_cons, append_assoc]
      · rw [hmax, hq1]
        rfl
      · rw [hdata, hq1]
        rfl
      intro b hb
      rw [mem_cons, not_or] at hb
      rw [hnext b hb.2, hq1]
      exact update_of_ne hb.1 _ _

end

/-! ## Messages in slots -/

def Stored (bytes : Nat → UInt8) (msg : Msg) : Prop := ∀ i b, msg[i]? = some b → bytes i = b

lemma stored_nil (bytes : Nat → UInt8) : Stored bytes [] := by simp [Stored]

variable {bytes : Nat → UInt8}

lemma Stored.snoc {msg : Msg} (h : Stored bytes msg) :
    Stored bytes (msg ++ [bytes msg.length]) := by
  intro i b hb
  by_cases hi : i < msg.length
  · rw [getElem?_append_left hi] at hb
    exact h i b hb
  rw [getElem?_append_right (by omega)] at hb
  have hlt : i - msg.length < 1 := by
    by_contra hge
    rw [getElem?_eq_none (by simp only [length_singleton]; omega)] at hb
    simp at hb
  obtain rfl : i = msg.length := by omega
  simpa using hb

lemma Stored.copy {buffer : Msg} {done : Nat} {b : UInt8} (h : Stored bytes (buffer.take done))
    (hb : buffer[done]? = some b) : Stored (update bytes done b) (buffer.take (done + 1)) := by
  intro i x hx
  rw [getElem?_take] at hx
  split at hx
  · by_cases hi : i = done
    · subst hi
      rw [update_self]
      exact Option.some.inj (hb.symm.trans hx)
    rw [update_of_ne hi]
    refine h i x ?_
    rw [getElem?_take, if_pos (by omega)]
    exact hx
  simp at hx

lemma Stored.prefix_or {msg buffer : Msg} (hm : Stored bytes msg)
    (hb : Stored bytes buffer) : buffer <+: msg ∨ msg <+: buffer := by
  have key : ∀ {a c : Msg}, Stored bytes a → Stored bytes c → a.length ≤ c.length → a <+: c := by
    intro a c ha hc hle
    refine prefix_iff_getElem.mpr ⟨hle, fun i hi => ?_⟩
    have h1 := ha i _ (getElem?_eq_getElem hi)
    have h2 := hc i _ (getElem?_eq_getElem (by omega))
    exact h1.symm.trans h2
  rcases Nat.le_total buffer.length msg.length with hle | hle
  · exact .inl (key hb hm hle)
  exact .inr (key hm hb hle)

/-! ## What a step does to both -/

section

variable {C : Type}

def held (call : C → Option Frame) (c : C) : Option Slot := (call c).bind Frame.slot

/-- What a call that has a slot relies on: a sender has copied what it has, and `rt_mq_send` has
ended the list there; a receiver has the message that it was given. -/
def Frame.Ok (q : Mq) (sp : Spec C) (c : C) : Frame → Prop
  | .send _ _ => True
  | .fill msg urgent buffer done =>
    Stored (q.data msg) (buffer.take done) ∧ (urgent = false → q.next msg = none)
  | .wait _ _ _ => True
  | .drain msg size buffer =>
    buffer.length ≤ size ∧ Stored (q.data msg) buffer ∧
      ∃ m, sp.taken c = some (size, m) ∧ Stored (q.data msg) m

/-- The slots of the queue hold the messages of `sp`. -/
structure Content (q : Mq) (call : C → Option Frame) (sp : Spec C) (free queued : List Slot) :
    Prop where
  lists : Lists q free queued
  custody : Custody {msg | msg < q.maxMsgs} (free ++ queued) (held call)
  max : q.maxMsgs < 2 ^ 16
  queue : List.Forall₂ (fun msg m => Stored (q.data msg) m) queued sp.queue
  frames : ∀ c f, call c = some f → f.Ok q sp c

variable {call : C → Option Frame} {sp sp' : Spec C} {c : C} {msg : Slot}

variable {buffer : Msg} {f : Frame}

lemma Frame.Ok.congr (h : f.Ok q sp c)
    (hq : ∀ msg, f.slot = some msg → q'.data msg = q.data msg ∧ q'.next msg = q.next msg)
    (hsp : sp'.taken c = sp.taken c) : f.Ok q' sp' c := by
  cases f with
  | send msg buffer => trivial
  | fill msg urgent buffer done =>
    obtain ⟨hd, hn⟩ := hq msg rfl
    simpa only [Frame.Ok, hd, hn] using h
  | wait size timeout tickDelta => trivial
  | drain msg size buffer =>
    obtain ⟨hd, -⟩ := hq msg rfl
    simpa only [Frame.Ok, hd, hsp] using h

lemma length_le_of_custody {n : Nat} {l : List Slot} {held : C → Option Slot}
    (h : Custody {msg | msg < n} l held) : l.length ≤ n := by
  have hsub : l ⊆ List.range n := fun m hm => mem_range.mpr ((h.cover m).mpr (.inl hm))
  simpa using (h.nodup.subperm hsub).length_le

variable (h : Content q call sp free queued)

include h

lemma Content.queue_congr (hq : ∀ m ∈ queued, q'.data m = q.data m) :
    List.Forall₂ (fun msg m => Stored (q'.data msg) m) queued sp.queue := by
  refine ((forall₂_and_left queued sp.queue).mpr ⟨hq, h.queue⟩).imp ?_
  rintro msg m ⟨he, hs⟩
  rw [he]
  exact hs

lemma Content.reset : ∃ q' free', q.releaseAll (q.maxMsgs + 1) = some q' ∧
      Content { q' with entry := 0 } call { sp with queue := [] } free' [] := by
  have hle := length_le_of_custody h.custody
  rw [length_append] at hle
  obtain ⟨q', hq', hl, hmax, hdata, hnext⟩ :=
    h.lists.releaseAll (q.maxMsgs + 1) h.custody.nodup (by omega)
  refine ⟨q', queued.reverse ++ free, hq', ⟨⟨hl.freeChain, hl.queueChain, hl.tail⟩, rfl⟩, ?_, ?_,
    .nil, fun c f hf => (h.frames c f hf).congr (fun m hs => ?_) rfl⟩
  · rw [hmax]
    refine h.custody.perm ?_
    calc queued.reverse ++ free ++ [] = queued.reverse ++ free := append_nil _
      _ ~ queued ++ free := (reverse_perm queued).append_right free
      _ ~ free ++ queued := perm_append_comm
  · rw [hmax]
    exact h.max
  have hm : m ∉ free ++ queued := h.custody.apart (c := c) (by simp [held, hf, hs])
  exact ⟨congrFun hdata m, hnext m fun hq => hm (by simp [hq])⟩

variable [DecidableEq C] {done : Nat}

omit h in
lemma held_update (call : C → Option Frame) (c : C) (f : Option Frame) :
    held (update call c f) = update (held call) c (f.bind Frame.slot) := by
  funext d
  by_cases hd : d = c
  · simp [held, hd]
  simp [held, hd]

lemma Content.frames_update {f : Option Frame} (hnew : ∀ g, f = some g → g.Ok q' sp' c)
    (hq : ∀ d msg, d ≠ c → held call d = some msg →
      q'.data msg = q.data msg ∧ q'.next msg = q.next msg)
    (hsp : ∀ d, d ≠ c → sp'.taken d = sp.taken d) :
    ∀ d g, update call c f d = some g → g.Ok q' sp' d := by
  intro d g hg
  by_cases hd : d = c
  · subst hd
    exact hnew g (by simpa using hg)
  have hg' : call d = some g := by simpa [hd] using hg
  exact (h.frames d g hg').congr (fun msg hs => hq d msg hd (by simp [held, hg', hs])) (hsp d hd)

lemma Content.idle {f : Option Frame} (hold : held call c = none) (hf : f.bind Frame.slot = none) :
    Content q (update call c f) sp free queued := by
  refine ⟨h.lists, ?_, h.max, h.queue, h.frames_update (fun g hg => ?_) (fun _ _ _ _ => ⟨rfl, rfl⟩)
    fun _ _ => rfl⟩
  · rw [held_update, hf, ← hold, update_eq_self]
    exact h.custody
  subst hg
  cases g with
  | wait size timeout tickDelta => trivial
  | send msg buffer => simp [Frame.slot] at hf
  | fill msg urgent buffer done => simp [Frame.slot] at hf
  | drain msg size buffer => simp [Frame.slot] at hf

lemma Content.takeFree (hold : held call c = none)
    (hfree : q.free = some msg) (hf : f.slot = some msg) (hok : f.Ok q sp c) :
    ∃ rest, Content { q with free := q.next msg } (update call c (some f)) sp
      rest queued := by
  obtain ⟨rest, rfl, hl⟩ := h.lists.takeFree hfree
  refine ⟨rest, ⟨hl, h.lists.entry⟩, ?_, h.max, h.queue,
    h.frames_update (fun g hg => ?_) (fun _ _ _ _ => ⟨rfl, rfl⟩) fun _ _ => rfl⟩
  · rw [held_update, Option.bind_some, hf]
    exact Custody.take h.custody hold
  cases hg
  exact hok.congr (fun _ _ => ⟨rfl, rfl⟩) rfl

lemma Content.write (hold : held call c = some msg) (hl : Lists q' free queued)
    (hmax : q'.maxMsgs = q.maxMsgs)
    (hq : ∀ m, m ≠ msg → q'.data m = q.data m ∧ q'.next m = q.next m) (hf : f.slot = some msg)
    (hok : f.Ok q' sp c) : Content q' (update call c (some f)) sp free queued := by
  refine ⟨hl, ?_, by rw [hmax]; exact h.max, ?_, h.frames_update (fun g hg => ?_) ?_ fun _ _ => rfl⟩
  · rw [held_update, Option.bind_some, hf, ← hold, update_eq_self, hmax]
    exact h.custody
  · refine h.queue_congr fun m hm => (hq m ?_).1
    rintro rfl
    exact h.custody.apart hold (by simp [hm])
  · cases hg
    exact hok
  intro d m hd hm
  refine hq m ?_
  rintro rfl
  exact hd (h.custody.unique hm hold)

lemma Content.entry_succ (hold : held call c = some msg) :
    (q.entry + 1) % 2 ^ 16 = queued.length + 1 := by
  have hle := length_le_of_custody (h.custody.put hold)
  have hmax := h.max
  rw [length_cons, length_append] at hle
  rw [h.lists.entry]
  exact Nat.mod_eq_of_lt (by omega)

lemma Content.link (hold : held call c = some msg)
    {queued' : List Slot} (hl : Lists q' free queued') (hperm : queued'.Perm (msg :: queued))
    (hmax : q'.maxMsgs = q.maxMsgs) (hdata : q'.data = q.data)
    (hnext : ∀ m, m ∉ queued → m ≠ msg → q'.next m = q.next m)
    (hqueue : List.Forall₂ (fun msg m => Stored (q.data msg) m) queued' sp'.queue)
    (hsp : sp'.taken = sp.taken) : Content q' (update call c none) sp' free queued' := by
  refine ⟨hl, ?_, by rw [hmax]; exact h.max, by rw [hdata]; exact hqueue,
    h.frames_update (by simp) ?_ fun d _ => by rw [hsp]⟩
  · rw [held_update, hmax]
    have hp : (free ++ queued').Perm (msg :: (free ++ queued)) :=
      calc free ++ queued' ~ free ++ msg :: queued := hperm.append_left free
        _ ~ msg :: (free ++ queued) := perm_middle
    exact (h.custody.put hold).perm hp
  intro d m hd hm
  refine ⟨by rw [hdata], hnext m (fun hq => h.custody.apart hm (by simp [hq])) ?_⟩
  rintro rfl
  exact hd (h.custody.unique hm hold)

lemma Content.append
    (hc : call c = some (.fill msg false buffer done)) (hdone : buffer[done]? = none) :
    Content (q.append msg) (update call c none) { sp with queue := sp.queue ++ [buffer] }
      free (queued ++ [msg]) := by
  have hold : held call c = some msg := by simp [held, hc, Frame.slot]
  obtain ⟨hs, hn⟩ := h.frames c _ hc
  rw [take_of_length_le (List.getElem?_eq_none_iff.mp hdone)] at hs
  have hlinks := h.lists.append h.custody.nodup (h.custody.apart hold) (hn rfl)
  have hentry : (q.append msg).entry = (queued ++ [msg]).length := by
    rw [length_append]
    exact h.entry_succ hold
  refine h.link hold ⟨hlinks, hentry⟩ (perm_append_singleton _ _) rfl rfl ?_ ?_ rfl
  · intro m hm hne
    exact next_append_of_ne fun ht => hm (mem_of_getLast? (h.lists.tail.symm.trans ht))
  exact rel_append h.queue (List.Forall₂.cons hs .nil)

lemma Content.prepend
    (hc : call c = some (.fill msg true buffer done)) (hdone : buffer[done]? = none) :
    Content (q.prepend msg) (update call c none) { sp with queue := buffer :: sp.queue }
      free (msg :: queued) := by
  have hold : held call c = some msg := by simp [held, hc, Frame.slot]
  obtain ⟨hs, -⟩ := h.frames c _ hc
  rw [take_of_length_le (List.getElem?_eq_none_iff.mp hdone)] at hs
  have hlinks := h.lists.prepend (h.custody.apart hold)
  have hentry : (q.prepend msg).entry = (msg :: queued).length := h.entry_succ hold
  refine h.link hold ⟨hlinks, hentry⟩ (List.Perm.refl _) rfl rfl ?_ ?_ rfl
  · intro m _ hne
    exact update_of_ne hne _ _
  exact List.Forall₂.cons hs h.queue

lemma Content.takeFirst (hold : held call c = none)
    (hu : q.unlinkFirst = some (msg, q')) (size : Nat) :
    ∃ rest m ms, sp.queue = m :: ms ∧
      Content q'.countDown (update call c (some (.drain msg size [])))
        { queue := ms, taken := update sp.taken c (some (size, m)) } free rest := by
  obtain ⟨rest, rfl, hl, hq'⟩ := h.lists.unlinkFirst (nodup_append.mp h.custody.nodup).2.1 hu
  have hdata : q'.data = q.data := by rw [hq']
  have hnext : q'.next = q.next := by rw [hq']
  have hentry : q'.entry = rest.length + 1 := by
    rw [hq']
    exact h.lists.entry
  have hqueue := h.queue
  cases hspq : sp.queue with
  | nil =>
    rw [hspq] at hqueue
    simp at hqueue
  | cons m ms =>
    rw [hspq] at hqueue
    obtain ⟨hs, hrest⟩ := forall₂_cons.mp hqueue
    refine ⟨rest, m, ms, rfl, ⟨⟨hl.freeChain, hl.queueChain, hl.tail⟩, ?_⟩, ?_, ?_, ?_,
      h.frames_update ?_ ?_ ?_⟩
    · simp [Mq.countDown, hentry]
    · rw [held_update]
      have hmax : q'.countDown.maxMsgs = q.maxMsgs := by rw [hq']; rfl
      rw [hmax]
      exact Custody.take (h.custody.perm perm_middle.symm) hold
    · rw [hq']
      exact h.max
    · show List.Forall₂ (fun msg m => Stored (q'.data msg) m) rest ms
      rw [hdata]
      exact hrest
    · intro g hg
      cases hg
      refine ⟨Nat.zero_le _, stored_nil _, m, by simp, ?_⟩
      show Stored (q'.data msg) m
      rw [hdata]
      exact hs
    · intro d m' _ _
      exact ⟨congrFun hdata m', congrFun hnext m'⟩
    intro d hd
    simp [hd]

lemma Content.release {size : Nat} (hc : call c = some (.drain msg size buffer))
    (hdone : size ≤ buffer.length) :
    (∃ m, sp.taken c = some (size, m) ∧ buffer.length = size ∧ (buffer <+: m ∨ m <+: buffer)) ∧
      Content (q.release msg) (update call c none)
        { sp with taken := update sp.taken c none } (msg :: free) queued := by
  have hold : held call c = some msg := by simp [held, hc, Frame.slot]
  obtain ⟨hle, hb, m, htaken, hm⟩ := h.frames c _ hc
  refine ⟨⟨m, htaken, by omega, hm.prefix_or hb⟩,
    ⟨⟨h.lists.release (h.custody.apart hold), h.lists.entry⟩,
      ?_, h.max, h.queue, h.frames_update (by simp) ?_ ?_⟩⟩
  · rw [held_update]
    exact h.custody.put hold
  · intro d m' hd hm'
    refine ⟨rfl, update_of_ne ?_ _ _⟩
    rintro rfl
    exact hd (h.custody.unique hm' hold)
  intro d hd
  simp [hd]

end

end NbIot.MessageQueues
