import NbIot.Kernel.Thread

/-! # The reference count of a device

`rt_device_open` and `rt_device_close` of `device.c` keep two records of whether a device is open:
the bit `RT_DEVICE_OFLAG_OPEN` of `open_flag`, and `ref_count`. The driver is asked in between, and
may refuse. What it answers is part of the call here, so a statement about every list of calls is
a statement about every driver that can fail at any time.
-/

namespace NbIot

/-! ## The functions of `device.c` -/

def rtEnosys : Int := 6
def rtEbusy : Int := 7

namespace Devices

open Run

def flagStandalone : BitVec 16 := 0x008#16

def flagActivated : BitVec 16 := 0x010#16

def oflagClose : BitVec 16 := 0x000#16

def oflagOpen : BitVec 16 := 0x008#16

/-- `struct rt_device`: its name, its flags, its reference count, and which of the three
callbacks are not `RT_NULL`. -/
structure Device where
  name : String
  flag : BitVec 16
  openFlag : BitVec 16
  refCount : BitVec 8
  hasInit : Bool
  hasOpen : Bool
  hasClose : Bool

/-- What a call leaves behind: its return value, the device, and the text it printed. -/
structure Return where
  result : Int
  dev : Device
  printed : String

/-- The driver took the request: `result == RT_EOK || result == -RT_ENOSYS`. -/
def Taken (result : Int) : Prop := result = rtEok ∨ result = -rtEnosys
  deriving Decidable

/-- `rt_device_register`, the part that concerns the device itself. -/
def rtDeviceRegister (dev : Device) (name : String) (flags : BitVec 16) : Device :=
  { dev with name := name, flag := flags, refCount := 0, openFlag := 0 }

/-- The text `rt_device_open` prints when `dev->init` fails. -/
def initFailure (dev : Device) (result : Int) : String :=
  "To initialize device:" ++ dev.name ++ " failed. The error code is " ++ toString result ++ "\n"

/-- `rt_device_open`; `initResult` and `openResult` are what `dev->init` and `dev->open` return
if they are called. -/
def rtDeviceOpen (dev : Device) (oflag : BitVec 16) (initResult openResult : Int) :
    Option Return :=
  let activated := dev.flag &&& flagActivated ≠ 0
  if ¬ activated ∧ dev.hasInit ∧ initResult ≠ rtEok then
    some ⟨initResult, dev, initFailure dev initResult⟩
  else
    let dev := if activated then dev else { dev with flag := dev.flag ||| flagActivated }
    if dev.flag &&& flagStandalone ≠ 0 ∧ dev.openFlag &&& oflagOpen ≠ 0 then
      some ⟨-rtEbusy, dev, ""⟩
    else
      let result := if dev.hasOpen then openResult else rtEok
      if Taken result then
        let dev := { dev with openFlag := oflag ||| oflagOpen, refCount := dev.refCount + 1 }
        -- `RT_ASSERT(dev->ref_count != 0)`: the count is eight bits wide
        if dev.refCount = 0 then none else some ⟨result, dev, ""⟩
      else
        some ⟨result, dev, ""⟩

/-- `rt_device_close`; `closeResult` is what `dev->close` returns if it is called. -/
def rtDeviceClose (dev : Device) (closeResult : Int) : Return :=
  if dev.refCount = 0 then
    ⟨-rtError, dev, ""⟩
  else
    let dev := { dev with refCount := dev.refCount - 1 }
    if dev.refCount ≠ 0 then
      ⟨rtEok, dev, ""⟩
    else
      let result := if dev.hasClose then closeResult else rtEok
      if Taken result then ⟨result, { dev with openFlag := oflagClose }, ""⟩
      else ⟨result, dev, ""⟩

/-! ## Sequences of calls -/

inductive Call where
  | openDev (oflag : BitVec 16) (initResult openResult : Int)
  | closeDev (closeResult : Int)
  deriving DecidableEq

def call (dev : Device) : Call → Option Return
  | .openDev oflag initResult openResult => rtDeviceOpen dev oflag initResult openResult
  | .closeDev closeResult => some (rtDeviceClose dev closeResult)

structure State where
  dev : Device
  opens : Nat
  closes : Nat

def registered (dev : Device) (name : String) (flags : BitVec 16) : State :=
  ⟨rtDeviceRegister dev name flags, 0, 0⟩

/-- A call is successful when it does not return an error other than `-RT_ENOSYS`. -/
def State.count (s : State) (c : Call) (result : Int) (dev : Device) : State :=
  if Taken result then
    match c with
    | .openDev .. => ⟨dev, s.opens + 1, s.closes⟩
    | .closeDev _ => ⟨dev, s.opens, s.closes + 1⟩
  else ⟨dev, s.opens, s.closes⟩

def step (s : State) (c : Call) : Option State :=
  (call s.dev c).map fun r => s.count c r.result r.dev

/-! ## The law -/

def Counted (s : State) : Prop :=
  (s.dev.openFlag &&& oflagOpen ≠ 0 ↔ 0 < s.dev.refCount.toNat) ∧
    (s.dev.refCount.toNat : Int) = s.opens - s.closes

def Harmless (dev : Device) (c : Call) : Prop :=
  ∀ r, call dev c = some r → ¬ Taken r.result →
    r.dev.openFlag = dev.openFlag ∧ r.dev.refCount = dev.refCount

/-- What is asked of the driver: `init` does not answer `-RT_ENOSYS`, and `close`, when the last
user leaves, does not fail. -/
def Obliging (s : State) : Call → Prop
  | .openDev _ initResult _ =>
    s.dev.flag &&& flagActivated = 0 → s.dev.hasInit → initResult ≠ -rtEnosys
  | .closeDev closeResult => s.dev.refCount = 1 → s.dev.hasClose → Taken closeResult

instance (s : State) (c : Call) : Decidable (Obliging s c) := by
  cases c <;> unfold Obliging <;> infer_instance

/-! ## What a call does -/

inductive Move (dev : Device) : Call → Return → Prop
  /-- `dev->init` failed. -/
  | uninitialised (oflag : BitVec 16) (i o : Int) (r : Return) :
      dev.flag &&& flagActivated = 0 → dev.hasInit → i ≠ rtEok → r.result = i → r.dev = dev →
      Move dev (.openDev oflag i o) r
  /-- The device is opened already and serves one user, or `dev->open` failed. -/
  | refused (oflag : BitVec 16) (i o : Int) (r : Return) :
      (dev.flag &&& flagActivated = 0 → dev.hasInit → i = rtEok) → ¬ Taken r.result →
      r.dev.openFlag = dev.openFlag → r.dev.refCount = dev.refCount →
      Move dev (.openDev oflag i o) r
  | opened (oflag : BitVec 16) (i o : Int) (r : Return) :
      (dev.flag &&& flagActivated = 0 → dev.hasInit → i = rtEok) → Taken r.result →
      r.dev.openFlag = oflag ||| oflagOpen → dev.refCount + 1 ≠ 0 →
      r.dev.refCount = dev.refCount + 1 →
      Move dev (.openDev oflag i o) r
  /-- Nobody has the device open. -/
  | shut (c : Int) (r : Return) :
      dev.refCount = 0 → r.result = -rtError → r.dev = dev → Move dev (.closeDev c) r
  /-- Other users remain. -/
  | shared (c : Int) (r : Return) : dev.refCount ≠ 0 → dev.refCount ≠ 1 → Taken r.result →
      r.dev.openFlag = dev.openFlag → r.dev.refCount = dev.refCount - 1 →
      Move dev (.closeDev c) r
  | closed (c : Int) (r : Return) : dev.refCount = 1 → (dev.hasClose → Taken c) → Taken r.result →
      r.dev.openFlag = oflagClose → r.dev.refCount = 0 →
      Move dev (.closeDev c) r
  /-- The last user leaves and `dev->close` fails. -/
  | stuck (c : Int) (r : Return) : dev.refCount = 1 → dev.hasClose → ¬ Taken c → r.result = c →
      r.dev.openFlag = dev.openFlag → r.dev.refCount = 0 →
      Move dev (.closeDev c) r

lemma taken_eok : Taken rtEok := .inl rfl

lemma not_taken_ebusy : ¬ Taken (-rtEbusy) := by decide

lemma not_taken_error : ¬ Taken (-rtError) := by decide

lemma move_of_open {dev : Device} {oflag : BitVec 16} {i o : Int} {r : Return}
    (h : rtDeviceOpen dev oflag i o = some r) : Move dev (.openDev oflag i o) r := by
  simp only [rtDeviceOpen] at h
  by_cases hinit : ¬ dev.flag &&& flagActivated ≠ 0 ∧ dev.hasInit ∧ i ≠ rtEok
  · rw [if_pos hinit] at h
    cases h
    exact .uninitialised oflag i o _ (not_not.mp hinit.1) hinit.2.1 hinit.2.2 rfl rfl
  rw [if_neg hinit] at h
  have hready : dev.flag &&& flagActivated = 0 → dev.hasInit → i = rtEok := by
    intro h0 hI
    by_contra hi
    exact hinit ⟨not_not.mpr h0, hI, hi⟩
  -- activating the device touches `flag` only
  generalize hd : (if dev.flag &&& flagActivated ≠ 0 then dev
    else { dev with flag := dev.flag ||| flagActivated }) = d at h
  have hof : d.openFlag = dev.openFlag := by subst hd; split <;> rfl
  have hrc : d.refCount = dev.refCount := by subst hd; split <;> rfl
  generalize (if d.hasOpen then o else rtEok) = result at h
  split at h
  · cases h
    exact .refused oflag i o _ hready not_taken_ebusy hof hrc
  split at h
  · rename_i htaken
    rw [Option.ite_none_left_eq_some] at h
    obtain ⟨hne, h⟩ := h
    cases h
    exact .opened oflag i o _ hready htaken rfl (hrc ▸ hne) (by rw [← hrc])
  rename_i hnot
  cases h
  exact .refused oflag i o _ hready hnot hof hrc

lemma move_of_close (dev : Device) (c : Int) : Move dev (.closeDev c) (rtDeviceClose dev c) := by
  simp only [rtDeviceClose]
  by_cases h0 : dev.refCount = 0
  · rw [if_pos h0]
    exact .shut c _ h0 rfl rfl
  rw [if_neg h0]
  by_cases hlast : dev.refCount - 1 = 0
  · have h1 : dev.refCount = 1 := by bv_omega
    rw [if_neg (not_not.mpr hlast)]
    by_cases hC : dev.hasClose = true
    · by_cases htaken : Taken c
      · rw [if_pos (by rwa [if_pos hC])]
        exact .closed c _ h1 (fun _ => htaken) (by rwa [if_pos hC]) rfl hlast
      rw [if_neg (by rwa [if_pos hC])]
      exact .stuck c _ h1 hC htaken (if_pos hC) rfl hlast
    have hnull : (if dev.hasClose = true then c else rtEok) = rtEok := if_neg hC
    rw [hnull]
    exact .closed c _ h1 (fun h => absurd h hC) taken_eok rfl hlast
  rw [if_pos hlast]
  exact .shared c _ h0 (fun h1 => hlast (by rw [h1]; rfl)) taken_eok rfl rfl

lemma move_of_call {dev : Device} {c : Call} {r : Return} (h : call dev c = some r) :
    Move dev c r := by
  cases c with
  | openDev oflag i o => exact move_of_open h
  | closeDev c =>
    cases h
    exact move_of_close dev c

lemma oflagOpen_set (oflag : BitVec 16) : (oflag ||| oflagOpen) &&& oflagOpen ≠ 0 := by
  intro h
  have hbit := congrArg (fun v : BitVec 16 => v.getLsbD 3) h
  simp [oflagOpen] at hbit

lemma oflagOpen_clear : oflagClose &&& oflagOpen = 0 := by decide

variable {s s' : State} {c : Call}

lemma step_eq_some :
    step s c = some s' ↔ ∃ r, call s.dev c = some r ∧ s' = s.count c r.result r.dev := by
  rw [step, Option.map_eq_some_iff]
  constructor
  · rintro ⟨r, hr, rfl⟩
    exact ⟨r, hr, rfl⟩
  rintro ⟨r, hr, rfl⟩
  exact ⟨r, hr, rfl⟩

/-- **One call.** From a state whose records are right, a call of an obliging driver leaves them
right, and harms nothing when it fails. -/
theorem counted_of_obliging (hs : Counted s) (hC : Obliging s c) :
    (∀ s', step s c = some s' → Counted s') ∧ Harmless s.dev c := by
  constructor
  · intro s' h
    obtain ⟨r, hr, rfl⟩ := step_eq_some.mp h
    cases move_of_call hr with
    | uninitialised oflag i o _ h0 hI hi hres hdev =>
      have hnot : ¬ Taken r.result := by
        rw [hres]
        exact fun ht => ht.elim hi (hC h0 hI)
      simpa [State.count, hnot, hdev] using hs
    | refused oflag i o _ _ hnot hof hrc =>
      simpa [State.count, hnot, Counted, hof, hrc] using hs
    | opened oflag i o _ _ htaken hof hne hrc =>
      simp only [State.count, htaken, if_true, Counted, hof, hrc]
      have hcount := hs.2
      refine ⟨iff_of_true (oflagOpen_set oflag) (by bv_omega), ?_⟩
      have hsucc : (s.dev.refCount + 1).toNat = s.dev.refCount.toNat + 1 := by bv_omega
      omega
    | shut c _ h0 hres hdev =>
      have hnot : ¬ Taken r.result := hres ▸ not_taken_error
      simpa [State.count, hnot, hdev] using hs
    | shared c _ h0 h1 htaken hof hrc =>
      simp only [State.count, htaken, if_true, Counted, hof, hrc]
      have hcount := hs.2
      have hpred : (s.dev.refCount - 1).toNat + 1 = s.dev.refCount.toNat := by bv_omega
      refine ⟨iff_of_true (hs.1.mpr (by bv_omega)) (by bv_omega), ?_⟩
      omega
    | closed c _ h1 _ htaken hof hrc =>
      simp only [State.count, htaken, if_true, Counted, hof, hrc, oflagOpen_clear]
      have hcount := hs.2
      rw [h1] at hcount
      simp at hcount ⊢
      omega
    | stuck c _ h1 hclose hnot _ _ _ => exact absurd (hC h1 hclose) hnot
  intro r hr hnot
  cases move_of_call hr with
  | uninitialised _ _ _ _ _ _ _ _ hdev | shut _ _ _ _ hdev => exact ⟨by rw [hdev], by rw [hdev]⟩
  | refused _ _ _ _ _ _ hof hrc => exact ⟨hof, hrc⟩
  | opened _ _ _ _ _ htaken _ _ _ => exact absurd htaken hnot
  | shared _ _ _ _ htaken _ _ => exact absurd htaken hnot
  | closed _ _ _ _ htaken _ _ => exact absurd htaken hnot
  | stuck c _ h1 hclose hc _ _ _ => exact absurd (hC h1 hclose) hc

lemma not_counted_of_not_obliging (hs : Counted s) (hC : ¬ Obliging s c) :
    ∃ s', step s c = some s' ∧ ¬ Counted s' := by
  cases c with
  | openDev oflag i o =>
    simp only [Obliging, Classical.not_imp, not_not] at hC
    obtain ⟨h0, hI, rfl⟩ := hC
    -- the call returns `-RT_ENOSYS`, and counts as an open, before anything was opened
    have hret : rtDeviceOpen s.dev oflag (-rtEnosys) o
        = some ⟨-rtEnosys, s.dev, initFailure s.dev (-rtEnosys)⟩ :=
      if_pos ⟨not_not.mpr h0, hI, by decide⟩
    refine ⟨_, step_eq_some.mpr ⟨_, hret, rfl⟩, fun hbad => ?_⟩
    have htaken : Taken (-rtEnosys) := .inr rfl
    have hcount := hs.2
    have hcount' := hbad.2
    simp only [State.count, htaken, if_true] at hcount'
    omega
  | closeDev a =>
    simp only [Obliging, Classical.not_imp] at hC
    obtain ⟨h1, hclose, hnot⟩ := hC
    refine ⟨_, step_eq_some.mpr ⟨_, rfl, rfl⟩, fun hbad => ?_⟩
    cases move_of_close s.dev a with
    | shut _ _ h0 _ _ => exact absurd (h0.symm.trans h1) (by decide)
    | shared _ _ _ hne _ _ _ => exact hne h1
    | closed _ _ _ hc _ _ _ => exact hnot (hc hclose)
    | stuck _ _ _ _ _ hres hof hrc =>
      have hopen : s.dev.openFlag &&& oflagOpen ≠ 0 := hs.1.mpr (by rw [h1]; decide)
      have hflag := hbad.1
      simp only [State.count, hres, hnot, if_false, hof, hrc] at hflag
      exact absurd (hflag.mp hopen) (by decide)

lemma counted_registered (dev : Device) (name : String) (flags : BitVec 16) :
    Counted (registered dev name flags) := by
  simp [Counted, registered, rtDeviceRegister]

/-- **Reference counting.** From the registration of a device on, along every list of opens and
closes: `RT_DEVICE_OFLAG_OPEN` is set exactly when `ref_count` is positive, `ref_count` is the
number of successful opens minus the number of successful closes, and every call that fails leaves
both records as they were, if and only if the driver is obliging at every call. -/
theorem refCounting_iff (dev : Device) (name : String) (flags : BitVec 16) (calls : List Call) :
    ((∀ s, Reached step (registered dev name flags) calls s → Counted s) ∧
      ∀ pre c, pre ++ [c] <+: calls →
        ∀ s, exec step (registered dev name flags) pre = some s → Harmless s.dev c) ↔
      Meets step Obliging (registered dev name flags) calls := by
  constructor
  · rintro ⟨hcount, -⟩
    rw [meets_iff_forall_cut]
    intro pre c hpre s hs
    have hpre' : pre <+: calls := (List.prefix_append pre [c]).trans hpre
    have hCs : Counted s := hcount s ⟨pre, hpre', hs⟩
    by_contra hnot
    obtain ⟨s', hs', hbad⟩ := not_counted_of_not_obliging hCs hnot
    refine hbad (hcount s' ⟨pre ++ [c], hpre, ?_⟩)
    rw [exec_append, hs]
    exact exec_cons_eq_some.mpr ⟨s', hs', rfl⟩
  intro hM
  have hall : ∀ pre, pre <+: calls → ∀ s,
      exec step (registered dev name flags) pre = some s → Counted s := by
    intro pre hpre s hs
    exact inv_of_meets (fun s c s' hI hC h => (counted_of_obliging hI hC).1 s' h)
      (counted_registered dev name flags) (hM.shorten hpre) hs
  constructor
  · rintro s ⟨pre, hpre, hs⟩
    exact hall pre hpre s hs
  intro pre c hpre s hs
  have hCs := hall pre ((List.prefix_append pre [c]).trans hpre) s hs
  exact (counted_of_obliging hCs (meets_iff_forall_cut.mp hM pre c hpre s hs)).2

def uart : Device := ⟨"uart3", 0, 0, 0, true, true, true⟩

/-- One open, one close that the driver fails with `-RT_EIO`: nobody holds the device any more, and
it still counts as open. -/
theorem failedClose_leaves_open :
    ∃ s, exec step (registered uart "uart3" 0x103#16) [.openDev 3#16 0 0, .closeDev (-8)] = some s ∧
      s.dev.refCount = 0 ∧ s.dev.openFlag &&& oflagOpen ≠ 0 ∧ ¬ Counted s := by
  refine ⟨⟨⟨"uart3", 0x113#16, 0xb#16, 0, true, true, true⟩, 1, 0⟩, rfl, rfl, by decide, ?_⟩
  intro h
  exact absurd (h.1.mp (by decide)) (by decide)

end Devices

end NbIot
