import NbIot.Basic.Circle
import NbIot.Basic.Run

/-! # Alarms

`alarm.c`: any number of alarms share the one alarm of the RTC. `_container.current` is the alarm
for which the RTC has been set; `rt_alarm_start` compares the new alarm with it, and `alarm_update`
chooses another one when it is stopped, deleted, or has gone off.

* The mutex is held in every function, so a call is one step. It carries the two times at which it
  reads the clock; `clock` is the last one that has been read.
* A time is a count of seconds in local time. What the library functions make of it is a `Calendar`.
* The RTC takes what it is given: `rt_device_control` succeeds, and gives back the same time.
-/

namespace NbIot.Alarms

open NbIot.Circle Run List Option

/-! ## Times and alarms -/

structure Tm where
  sec : Int
  min : Int
  hour : Int
  mday : Int
  mon : Int
  year : Int
  wday : Int
  deriving DecidableEq

def alarmMkdaysec (time : Tm) : Int := time.sec + time.min * 60 + time.hour * 3600

/-- `24 * 3600`. -/
def daySecs : Int := 86400

structure InDay (time : Tm) : Prop where
  sec : 0 ≤ time.sec ∧ time.sec ≤ 59
  min : 0 ≤ time.min ∧ time.min ≤ 59
  hour : 0 ≤ time.hour ∧ time.hour ≤ 23

/-- `localtime_r` and `mktime`, with what is assumed of them. -/
structure Calendar where
  localtime : Nat → Tm
  mktime : Tm → Nat
  inDay : ∀ t, InDay (localtime t)
  daysec : ∀ t, alarmMkdaysec (localtime t) = (t : Int) % daySecs

/-- The kinds of `flag & 0xFF00`; `other` is none of the five. -/
inductive Kind where
  | oneshot | daily | weekly | monthly | yearly | other
  deriving DecidableEq

/-- `struct rt_alarm`, with the bits `RT_ALARM_STATE_INITED` and `RT_ALARM_STATE_START` of `flag`.
-/
structure Alarm where
  id : Nat
  kind : Kind
  inited : Bool
  started : Bool
  wktime : Tm
  deriving DecidableEq

def Alarm.daysec (a : Alarm) : Int := alarmMkdaysec a.wktime

/-- `struct rt_rtc_wkalarm`. -/
structure Rtc where
  enable : Bool
  sec : Int
  min : Int
  hour : Int
  deriving DecidableEq

/-- `alarm_set`: what the RTC is set to. -/
def alarmSet (a : Alarm) : Rtc := ⟨a.started, a.wktime.sec, a.wktime.min, a.wktime.hour⟩

def rtAlarmDelay : Int := 2

def rtAlarmTmNow : Int := -1

def rtRtcYearsMax : Int := 137

/-! ## The wake-ups -/

/-- `sec_now - sec_alarm <= RT_ALARM_DELAY`, for unsigned numbers. -/
def due (secAlarm secNow : Int) : Bool := 0 ≤ secNow - secAlarm ∧ secNow - secAlarm ≤ rtAlarmDelay

/-- The switch of `alarm_wakeup`. -/
def wakes (cal : Calendar) (a : Alarm) (now : Tm) : Bool :=
  match a.kind with
  | .oneshot => due (cal.mktime a.wktime) (cal.mktime now)
  | .daily => due a.daysec (alarmMkdaysec now)
  | .weekly =>
    due (a.daysec + a.wktime.wday * daySecs) (alarmMkdaysec now + now.wday * daySecs)
  | .monthly => a.wktime.mday = now.mday ∧ due a.daysec (alarmMkdaysec now)
  | .yearly =>
    a.wktime.mday = now.mday ∧ a.wktime.mon = now.mon ∧ due a.daysec (alarmMkdaysec now)
  | .other => false

/-- `alarm_wakeup` stops the alarm. -/
def expires (cal : Calendar) (now : Tm) (a : Alarm) : Bool :=
  a.started ∧ a.kind = .oneshot ∧ wakes cal a now

/-- `alarm_wakeup`: the alarm, the RTC, and the alarms that have gone off. -/
def alarmWakeup (cal : Calendar) (now : Tm) (a : Alarm) (rtc : Rtc) (rung : List Nat) :
    Alarm × Rtc × List Nat :=
  if a.started then
    (if expires cal now a then { a with started := false } else a,
      if expires cal now a then alarmSet { a with started := false } else rtc,
      if wakes cal a now then rung ++ [a.id] else rung)
  else (a, rtc, rung)

/-- The first loop of `alarm_update`. -/
def wakeupAll (cal : Calendar) (now : Tm) :
    List Alarm → Rtc → List Nat → List Alarm × Rtc × List Nat
  | [], rtc, rung => ([], rtc, rung)
  | a :: l, rtc, rung =>
    let (a, rtc, rung) := alarmWakeup cal now a rtc rung
    let (l, rtc, rung) := wakeupAll cal now l rtc rung
    (a :: l, rtc, rung)

/-! ## The setup -/

def daysOfYearMonth (tmYear tmMon : Int) : Int :=
  let year := tmYear + 1900
  if tmMon = 1 then 28 + if (year % 4 = 0 ∧ year % 100 ≠ 0) ∨ year % 400 = 0 then 1 else 0
  else if (tmMon ≤ 6 ∧ tmMon % 2 = 0) ∨ (tmMon > 6 ∧ tmMon % 2 = 1) then 31
  else 30

def isValidDate (date : Tm) : Bool :=
  ¬ (date.year < 0 ∨ date.year > rtRtcYearsMax) ∧ ¬ (date.mon < 0 ∨ date.mon > 11) ∧
    ¬ (date.mday < 1 ∨ date.mday > daysOfYearMonth date.year date.mon)

/-- A value out of its range is replaced by that of now. -/
def orNow (lo hi value now : Int) : Int := if value > hi ∨ value < lo then now else value

/-- `RT_ALARM_TM_NOW` is replaced by the value of now. -/
def unlessNow (value now : Int) : Int := if value = rtAlarmTmNow then now else value

/-- The switch of `alarm_setup`: the fields of the date, and whether it does not go to `_exit`. -/
def setupDate (kind : Kind) (setup now : Tm) : Tm × Bool :=
  match kind with
  | .daily => (setup, true)
  | .oneshot =>
    let date := { setup with
      year := unlessNow setup.year now.year, mon := unlessNow setup.mon now.mon
      mday := unlessNow setup.mday now.mday }
    (date, isValidDate date)
  | .weekly => ({ setup with wday := orNow 0 6 setup.wday now.wday }, true)
  | .monthly => ({ setup with mday := orNow 1 31 setup.mday now.mday }, true)
  | .yearly =>
    let mon := orNow 0 11 setup.mon now.mon
    let last := if mon = 1 then 29
      else if (mon ≤ 6 ∧ mon % 2 = 0) ∨ (mon > 6 ∧ mon % 2 = 1) then 31 else 30
    ({ setup with mon := mon, mday := orNow 1 last setup.mday now.mday }, true)
  | .other => (setup, false)

/-- The last second of a day is taken for the one before it. -/
def aheadOfMidnight (setup : Tm) : Tm :=
  if setup.hour = 23 ∧ setup.min = 59 ∧ setup.sec = 59 then
    { setup with sec := 60 - rtAlarmDelay }
  else setup

/-- The first part of `alarm_setup`. -/
def setupTime (wktime now : Tm) : Tm :=
  { wktime with
    sec := orNow 0 59 wktime.sec now.sec, min := orNow 0 59 wktime.min now.min
    hour := orNow 0 23 wktime.hour now.hour }

/-- `alarm_setup`: the alarm, and whether the result is `RT_EOK`. A setup that fails leaves what it
has replaced. -/
def alarmSetup (a : Alarm) (now : Tm) : Alarm × Bool :=
  let (setup, ok) := setupDate a.kind (setupTime a.wktime now) now
  if ok then ({ a with inited := true, wktime := aheadOfMidnight setup }, true)
  else ({ a with wktime := setup }, false)

/-! ## The functions of `alarm.c` -/

/-- `_container`, the RTC, the alarms that have gone off, and the last time that has been read. -/
structure State where
  alarms : List Alarm
  current : Option Nat
  rtc : Rtc
  rung : List Nat
  clock : Nat

def State.find (s : State) (id : Nat) : Option Alarm := s.alarms.find? (·.id = id)

def State.store (s : State) (a : Alarm) : State :=
  { s with alarms := s.alarms.map fun b => if b.id = a.id then a else b }

/-- `alarm_set(alarm)` and `_container.current = alarm`. -/
def State.arm (s : State) (a : Alarm) : State :=
  { s with rtc := alarmSet a, current := some a.id }

/-- The alarms that the second loop of `alarm_update` looks at. -/
def candidates (alarms : List Alarm) (current : Option Nat) : List Alarm :=
  alarms.filter fun a => a.started ∧ current ≠ some a.id

/-- The first loop of `alarm_update`, with the time `now`. -/
def State.wakeup (cal : Calendar) (s : State) (now : Nat) : State :=
  let (alarms, rtc, rung) := wakeupAll cal (cal.localtime now) s.alarms s.rtc s.rung
  { s with alarms := alarms, rtc := rtc, rung := rung }

/-- The second loop of `alarm_update`, with the time `now`, and what follows it. -/
def State.choose (cal : Calendar) (s : State) (now : Nat) : State :=
  match pick daySecs (scan Alarm.daysec daySecs (alarmMkdaysec (cal.localtime now))
      (candidates s.alarms s.current)) with
  | some a => s.arm a
  | none => s

def alarmUpdate (cal : Calendar) (s : State) (t₁ t₂ : Nat) : State :=
  (s.wakeup cal t₁).choose cal t₂

/-- The comparison of `rt_alarm_start`. -/
def Sooner (secNew secOld secNow : Int) : Prop :=
  (secNew < secOld ∧ secNew > secNow) ∨ (secNew > secNow ∧ secOld < secNow) ∨
    (secNew < secOld ∧ secOld < secNow)
  deriving Decidable

/-- `rt_alarm_start` behind the setup, of an alarm that is not started. -/
def startStopped (cal : Calendar) (s : State) (a : Alarm) (now : Nat) : Option State :=
  match s.current with
  | none => some ((s.store { a with started := true }).arm { a with started := true })
  | some id =>
    (s.find id).map fun old =>
      if Sooner a.daysec old.daysec (alarmMkdaysec (cal.localtime now)) then
        (s.store { a with started := true }).arm { a with started := true }
      else s.store { a with started := true }

/-- `rt_alarm_start`; a pointer that is not one of an alarm has no next state. -/
def rtAlarmStart (cal : Calendar) (s : State) (id t₁ t₂ : Nat) : Option State :=
  (s.find id).bind fun a =>
    let (a, ok) := if a.inited then (a, true) else alarmSetup a (cal.localtime t₁)
    let s := s.store a
    if ok then if a.started then some s else startStopped cal s a t₂ else some s

/-- What `rt_alarm_stop` and `rt_alarm_delete` begin with. -/
def State.stop (s : State) (a : Alarm) : State := s.store { a with started := false }

/-- `ret = alarm_set(alarm); _container.current = RT_NULL;`. -/
def State.unset (s : State) (a : Alarm) : State :=
  { s with rtc := alarmSet { a with started := false }, current := none }

def State.disarm (cal : Calendar) (s : State) (a : Alarm) (t₁ t₂ : Nat) : State :=
  alarmUpdate cal (s.unset a) t₁ t₂

/-- `rt_alarm_stop`; for an alarm that is not the current one `ret` is not `RT_EOK`. -/
def rtAlarmStop (cal : Calendar) (s : State) (id t₁ t₂ : Nat) : Option State :=
  (s.find id).map fun a =>
    if a.started then
      if s.current = some id then (s.stop a).disarm cal a t₁ t₂ else s.stop a
    else s

def rtAlarmDelete (cal : Calendar) (s : State) (id t₁ t₂ : Nat) : Option State :=
  (s.find id).map fun a =>
    let s := if s.current = some id then (s.stop a).disarm cal a t₁ t₂ else s.stop a
    { s with alarms := s.alarms.filter (·.id ≠ id) }

/-! ## Runs and the law -/

inductive Op where
  | start (id : Nat)
  | stop (id : Nat)
  | delete (id : Nat)
  | event

structure Action where
  op : Op
  t₁ : Nat
  t₂ : Nat

def Op.run (cal : Calendar) (s : State) (t₁ t₂ : Nat) : Op → Option State
  | .start id => rtAlarmStart cal s id t₁ t₂
  | .stop id => rtAlarmStop cal s id t₁ t₂
  | .delete id => rtAlarmDelete cal s id t₁ t₂
  | .event => some (alarmUpdate cal s t₁ t₂)

def step (cal : Calendar) (s : State) (a : Action) : Option State :=
  if s.clock ≤ a.t₁ ∧ a.t₁ ≤ a.t₂ then
    (a.op.run cal s a.t₁ a.t₂).map fun s => { s with clock := a.t₂ }
  else none

structure Start (s : State) : Prop where
  nodup : (s.alarms.map (·.id)).Nodup
  stopped : ∀ a ∈ s.alarms, a.inited = false ∧ a.started = false
  current : s.current = none

def untilNext (now : Nat) (a : Alarm) : Int := ahead daySecs (now % daySecs) a.daysec

/-- **The law.** If an alarm is started, the RTC is enabled and set to a started alarm than which no
other comes sooner. -/
def NextArmed (s : State) : Prop :=
  (∃ a ∈ s.alarms, a.started = true) → ∃ a ∈ s.alarms, a.started = true ∧ s.rtc = alarmSet a ∧
      ∀ b ∈ s.alarms, b.started = true → untilNext s.clock a ≤ untilNext s.clock b

def NotReached (s : State) (t : Nat) : Prop :=
  ∀ a ∈ s.alarms, s.current = some a.id → a.started = true →
    (t : Int) - s.clock < untilNext s.clock a
  deriving Decidable

/-- The alarm is started and does not expire. -/
def GoesOn (cal : Calendar) (now : Tm) (a : Alarm) : Prop :=
  a.started = true ∧ expires cal now a = false
  deriving Decidable

/-- Of the alarms before an update, either none goes on; or one besides the current alarm does that
is not due this second, and the current one does not or is due this second; or the current one is
started, apart from alarms that are due this second it is the only one, and no alarm expires. -/
def CanChoose (cal : Calendar) (s : State) (t₁ t₂ : Nat) : Prop :=
  (∀ a ∈ s.alarms, ¬ GoesOn cal (cal.localtime t₁) a) ∨
  ((∃ b ∈ s.alarms, GoesOn cal (cal.localtime t₁) b ∧ s.current ≠ some b.id ∧
      b.daysec ≠ t₂ % daySecs) ∧
    ∀ a ∈ s.alarms, GoesOn cal (cal.localtime t₁) a → s.current = some a.id →
      a.daysec = t₂ % daySecs) ∨
  ((∃ a ∈ s.alarms, a.started = true ∧ s.current = some a.id) ∧
    (∀ b ∈ s.alarms, b.started = true → s.current ≠ some b.id → b.daysec = t₂ % daySecs) ∧
    ∀ a ∈ s.alarms, expires cal (cal.localtime t₁) a = false)
  deriving Decidable

/-- What the callers and the clock would have to see to. -/
def Orderly (cal : Calendar) (s : State) (a : Action) : Prop :=
  match a.op with
  | .start _ =>
    NotReached s a.t₂ ∧ ∀ c ∈ s.current,
      ∃ o ∈ s.alarms, o.id = c ∧ o.started = true ∧ o.daysec ≠ a.t₂ % daySecs
  | .stop id | .delete id =>
    if s.current = some id then
      ∀ b ∈ s.find id, CanChoose cal ((s.stop b).unset b) a.t₁ a.t₂
    else NotReached s a.t₂
  | .event => CanChoose cal s a.t₁ a.t₂

instance (cal : Calendar) (s : State) (a : Action) : Decidable (Orderly cal s a) := by
  unfold Orderly
  split <;> infer_instance

/-! ## The invariant -/

lemma InDay.daysec {time : Tm} (h : InDay time) :
    0 ≤ alarmMkdaysec time ∧ alarmMkdaysec time < daySecs := by
  obtain ⟨⟨h1, h2⟩, ⟨h3, h4⟩, ⟨h5, h6⟩⟩ := h
  unfold alarmMkdaysec daySecs
  omega

lemma orNow_mem {lo hi value now : Int} (h : lo ≤ now ∧ now ≤ hi) :
    lo ≤ orNow lo hi value now ∧ orNow lo hi value now ≤ hi := by
  unfold orNow
  split <;> omega

lemma inDay_setup {a : Alarm} {now : Tm} (hnow : InDay now) (hok : (alarmSetup a now).2 = true) :
    InDay (alarmSetup a now).1.wktime := by
  have htime : InDay (setupTime a.wktime now) :=
    ⟨orNow_mem hnow.sec, orNow_mem hnow.min, orNow_mem hnow.hour⟩
  -- the date has no part in it
  have hdate : InDay (setupDate a.kind (setupTime a.wktime now) now).1 := by
    unfold setupDate
    split <;> exact ⟨htime.sec, htime.min, htime.hour⟩
  have hlast : ∀ {time : Tm}, InDay time → InDay (aheadOfMidnight time) := by
    intro time h
    unfold aheadOfMidnight
    split
    · exact ⟨by simp [rtAlarmDelay], h.min, h.hour⟩
    exact h
  unfold alarmSetup at hok ⊢
  simp only at hok ⊢
  split at hok
  · rename_i hyes
    rw [if_pos hyes]
    exact hlast hdate
  cases hok

lemma alarmSetup_same (a : Alarm) (now : Tm) :
    (alarmSetup a now).1.id = a.id ∧ (alarmSetup a now).1.started = a.started ∧
      (alarmSetup a now).1.inited = (a.inited || (alarmSetup a now).2) := by
  unfold alarmSetup
  simp only
  split <;> simp

def ArmedAt (s : State) (t : Nat) : Prop :=
  (∃ a ∈ s.alarms, a.started = true) →
    ∃ a ∈ s.alarms, a.started = true ∧ s.current = some a.id ∧ s.rtc = alarmSet a ∧
      ∀ b ∈ s.alarms, b.started = true → untilNext t a ≤ untilNext t b

structure Proper (alarms : List Alarm) : Prop where
  nodup : (alarms.map (·.id)).Nodup
  inited : ∀ a ∈ alarms, a.started = true → a.inited = true
  inDay : ∀ a ∈ alarms, a.inited = true → InDay a.wktime

structure Inv (s : State) : Prop where
  proper : Proper s.alarms
  armed : ArmedAt s s.clock

variable {s : State} {a b : Alarm} {cal : Calendar}

section

variable {t : Nat} {alarms : List Alarm}

lemma Proper.daysec (h : Proper alarms) (ha : a ∈ alarms)
    (hs : a.started = true) : 0 ≤ a.daysec ∧ a.daysec < daySecs :=
  (h.inDay a ha (h.inited a ha hs)).daysec

lemma Proper.eq_of_id (h : Proper alarms) (ha : a ∈ alarms)
    (hb : b ∈ alarms) (hid : a.id = b.id) : a = b := inj_on_of_nodup_map h.nodup ha hb hid

lemma Proper.map {f : Alarm → Alarm} (h : Proper alarms)
    (hid : ∀ a, (f a).id = a.id)
    (hinited : ∀ a ∈ alarms, (f a).started = true → (f a).inited = true)
    (hinDay : ∀ a ∈ alarms, (f a).inited = true → InDay (f a).wktime) : Proper (alarms.map f) := by
  refine ⟨?_, List.forall_mem_map.mpr hinited, List.forall_mem_map.mpr hinDay⟩
  rw [List.map_map, show (·.id) ∘ f = (·.id) from funext hid]
  exact h.nodup

lemma Inv.armed_later (h : Inv s) (ht : s.clock ≤ t) (hnot : NotReached s t) : ArmedAt s t := by
  intro hsome
  obtain ⟨a, ha, hs, hcur, hrtc, hmin⟩ := h.armed hsome
  refine ⟨a, ha, hs, hcur, hrtc, fun b hb hbs => ?_⟩
  have hsoon := hnot a ha hcur hs
  have hle := hmin b hb hbs
  have hlater : ∀ c ∈ s.alarms, c.started = true → (t : Int) - s.clock < untilNext s.clock c →
      untilNext t c = untilNext s.clock c - ((t : Int) - s.clock) := by
    intro c hc hcs hlt
    have hday := h.proper.daysec hc hcs
    have hadd := ahead_add hday.1 hday.2 (by omega) hlt
    rwa [show (s.clock : Int) + ((t : Int) - s.clock) = t by omega] at hadd
  rw [hlater a ha hs hsoon, hlater b hb hbs (by omega)]
  omega

lemma NextArmed.of_armedAt (h : ArmedAt s s.clock) : NextArmed s := by
  intro hsome
  obtain ⟨a, ha, hs, -, hrtc, hmin⟩ := h hsome
  exact ⟨a, ha, hs, hrtc, hmin⟩

end

/-! ## An update -/

/-- What `alarm_wakeup` makes of an alarm. -/
def Alarm.woken (cal : Calendar) (now : Tm) (a : Alarm) : Alarm :=
  if expires cal now a then { a with started := false } else a

section

variable {t t₁ t₂ : Nat}

lemma alarmWakeup_alarm (now : Tm) (a : Alarm) (rtc : Rtc) (rung : List Nat) :
    (alarmWakeup cal now a rtc rung).1 = a.woken cal now := by
  unfold alarmWakeup Alarm.woken
  split
  · rfl
  rename_i hs
  simp [expires, hs]

lemma wakeupAll_alarms (now : Tm) (l : List Alarm) (rtc : Rtc) (rung : List Nat) :
    (wakeupAll cal now l rtc rung).1 = l.map (·.woken cal now) := by
  induction l generalizing rtc rung with
  | nil => rfl
  | cons a l ih =>
    rw [wakeupAll]
    simp only [ih, map_cons, alarmWakeup_alarm]

lemma wakeupAll_rtc {now : Tm} {l : List Alarm} (h : ∀ a ∈ l, expires cal now a = false)
    (rtc : Rtc) (rung : List Nat) : (wakeupAll cal now l rtc rung).2.1 = rtc := by
  induction l generalizing rung with
  | nil => rfl
  | cons a l ih =>
    have ha : (alarmWakeup cal now a rtc rung).2.1 = rtc := by
      unfold alarmWakeup
      rw [h a mem_cons_self]
      split <;> rfl
    rw [wakeupAll]
    simp only [ih fun b hb => h b (mem_cons_of_mem a hb), ha]

lemma wakeup_alarms (s : State) (t : Nat) :
    (s.wakeup cal t).alarms = s.alarms.map (·.woken cal (cal.localtime t)) :=
  wakeupAll_alarms _ _ _ _

/-- The alarms that are started after the wake-ups. -/
lemma started_wakeup {t : Nat} {a : Alarm} : a ∈ (s.wakeup cal t).alarms ∧ a.started = true ↔
    a ∈ s.alarms ∧ GoesOn cal (cal.localtime t) a := by
  rw [wakeup_alarms, List.mem_map]
  constructor
  · rintro ⟨⟨b, hb, rfl⟩, hs⟩
    by_cases hexp : expires cal (cal.localtime t) b = true
    · simp [Alarm.woken, hexp] at hs
    have hwoken : b.woken cal (cal.localtime t) = b := if_neg hexp
    rw [hwoken] at hs ⊢
    exact ⟨hb, hs, Bool.eq_false_iff.mpr hexp⟩
  · rintro ⟨ha, hs, hexp⟩
    exact ⟨⟨a, ha, by simp [Alarm.woken, hexp]⟩, hs⟩

lemma Proper.wakeup (h : Proper s.alarms) (t : Nat) : Proper (s.wakeup cal t).alarms := by
  rw [wakeup_alarms]
  unfold Alarm.woken
  refine h.map (fun a => ?_) (fun a ha => ?_) fun a ha => ?_
  · split <;> rfl
  · split
    · nofun
    exact h.inited a ha
  split <;> exact h.inDay a ha

lemma choose_cases (h : Proper s.alarms) (t : Nat) :
    (∃ a ∈ candidates s.alarms s.current, a.daysec ≠ t % daySecs ∧ s.choose cal t = s.arm a ∧
      ∀ b ∈ candidates s.alarms s.current, untilNext t a ≤ untilNext t b) ∨
    (s.choose cal t = s ∧ ∀ b ∈ candidates s.alarms s.current, b.daysec = t % daySecs) := by
  have hnow := (cal.inDay t).daysec
  have hkey : ∀ a ∈ candidates s.alarms s.current, 0 ≤ a.daysec ∧ a.daysec < daySecs := by
    intro a ha
    obtain ⟨hmem, hs⟩ := mem_filter.mp ha
    exact h.daysec hmem (by simp at hs; exact hs.1)
  have hpick := pick_scan hnow.1 hkey
  rw [cal.daysec t] at hpick
  unfold State.choose
  rw [cal.daysec t]
  cases hres : pick daySecs (scan Alarm.daysec daySecs (t % daySecs)
      (candidates s.alarms s.current)) with
  | none =>
    rw [hres] at hpick
    exact .inr ⟨rfl, hpick⟩
  | some a =>
    rw [hres] at hpick
    exact .inl ⟨a, hpick.1, hpick.2.1, rfl, hpick.2.2⟩

lemma mem_candidates {alarms : List Alarm} {current : Option Nat} {a : Alarm} :
    a ∈ candidates alarms current ↔ a ∈ alarms ∧ a.started = true ∧ current ≠ some a.id := by
  simp [candidates]

lemma untilNext_le_of_due {a b : Alarm} (ha : 0 ≤ a.daysec ∧ a.daysec < daySecs)
    (hb : b.daysec = t % daySecs) : untilNext t a ≤ untilNext t b := by
  unfold untilNext
  rw [hb, ahead_self]
  exact ahead_le ha.2 (Int.emod_nonneg _ (by decide))

lemma alarms_update (s : State) (t₁ t₂ : Nat) :
    (alarmUpdate cal s t₁ t₂).alarms = (s.wakeup cal t₁).alarms := by
  unfold alarmUpdate State.choose
  split <;> rfl

/-- A candidate is chosen, and the current alarm is a day ahead. -/
lemma armed_chosen (h : Proper s.alarms) {b : Alarm} (hb : b ∈ s.alarms)
    (hgoes : GoesOn cal (cal.localtime t₁) b) (hbcur : s.current ≠ some b.id)
    (hbnow : b.daysec ≠ t₂ % daySecs)
    (hdue : ∀ a ∈ s.alarms, GoesOn cal (cal.localtime t₁) a → s.current = some a.id →
      a.daysec = t₂ % daySecs) :
    ArmedAt (alarmUpdate cal s t₁ t₂) t₂ := by
  have hproper : Proper (s.wakeup cal t₁).alarms := h.wakeup t₁
  intro _
  rw [alarms_update]
  rcases choose_cases hproper t₂ with ⟨a, ha, hanow, harm, hmin⟩ | ⟨-, hall⟩
  · obtain ⟨hamem, has, -⟩ := mem_candidates.mp ha
    refine ⟨a, hamem, has, ?_, ?_, fun y hy hys => ?_⟩
    · rw [alarmUpdate, harm]
      rfl
    · rw [alarmUpdate, harm]
      rfl
    by_cases hycur : s.current = some y.id
    · obtain ⟨hmem, hgoes⟩ := started_wakeup.mp ⟨hy, hys⟩
      exact untilNext_le_of_due (hproper.daysec hamem has) (hdue y hmem hgoes hycur)
    exact hmin y (mem_candidates.mpr ⟨hy, hys, hycur⟩)
  obtain ⟨hbmem, hbs⟩ := started_wakeup.mpr ⟨hb, hgoes⟩
  exact absurd (hall b (mem_candidates.mpr ⟨hbmem, hbs, hbcur⟩)) hbnow

/-- The current alarm stays armed. -/
lemma armed_kept (h : Proper s.alarms) {c : Alarm} (hc : c ∈ s.alarms) (hcs : c.started = true)
    (hcur : s.current = some c.id) (hset : s.rtc = alarmSet c)
    (hothers : ∀ b ∈ s.alarms, b.started = true → s.current ≠ some b.id →
      b.daysec = t₂ % daySecs)
    (hexp : ∀ a ∈ s.alarms, expires cal (cal.localtime t₁) a = false) :
    ArmedAt (alarmUpdate cal s t₁ t₂) t₂ := by
  have hproper : Proper (s.wakeup cal t₁).alarms := h.wakeup t₁
  have hsame : (s.wakeup cal t₁).alarms = s.alarms := by
    calc (s.wakeup cal t₁).alarms = s.alarms.map (·.woken cal (cal.localtime t₁)) :=
          wakeup_alarms s t₁
      _ = s.alarms.map id := map_congr_left fun a ha => by simp [Alarm.woken, hexp a ha]
      _ = s.alarms := List.map_id _
  have hrtc' : (s.wakeup cal t₁).rtc = s.rtc := wakeupAll_rtc hexp _ _
  intro _
  rw [alarms_update]
  rcases choose_cases hproper t₂ with ⟨a, ha, hanow, -, -⟩ | ⟨hkeep, -⟩
  · obtain ⟨hamem, has, hacur⟩ := mem_candidates.mp ha
    exact absurd (hothers a (hsame ▸ hamem) has hacur) hanow
  refine ⟨c, hsame ▸ hc, hcs, ?_, ?_, fun y hy hys => ?_⟩
  · rw [alarmUpdate, hkeep]
    exact hcur
  · rw [alarmUpdate, hkeep, hrtc']
    exact hset
  by_cases hycur : s.current = some y.id
  · have hid : c.id = y.id := Option.some.inj (hcur.symm.trans hycur)
    rw [hproper.eq_of_id (hsame ▸ hc) hy hid]
  exact untilNext_le_of_due (h.daysec hc hcs) (hothers y (hsame ▸ hy) hys hycur)

lemma armed_update (h : Proper s.alarms) (hchoose : CanChoose cal s t₁ t₂)
    (hrtc : ∀ a ∈ s.alarms, a.started = true → s.current = some a.id → s.rtc = alarmSet a) :
    ArmedAt (alarmUpdate cal s t₁ t₂) t₂ := by
  rcases hchoose with hnone | ⟨⟨b, hb, hgoes, hbcur, hbnow⟩, hdue⟩ |
    ⟨⟨c, hc, hcs, hcur⟩, hothers, hexp⟩
  · rintro ⟨x, hx, hxs⟩
    rw [alarms_update] at hx
    obtain ⟨hmem, hgoes⟩ := started_wakeup.mp ⟨hx, hxs⟩
    exact absurd hgoes (hnone x hmem)
  · exact armed_chosen h hb hgoes hbcur hbnow hdue
  exact armed_kept h hc hcs hcur (hrtc c hc hcs hcur) hothers hexp

end

/-! ## Starts and stops -/

section

variable {s s' : State} {id t₁ t₂ : Nat} {a' : Alarm}

lemma find_spec (h : s.find id = some a) : a ∈ s.alarms ∧ a.id = id :=
  ⟨mem_of_find?_eq_some h, by simpa using find?_some h⟩

lemma mem_store (h : Proper s.alarms) (ha : a ∈ s.alarms) (hid : a'.id = a.id) :
    b ∈ (s.store a').alarms ↔ b = a' ∨ b ∈ s.alarms ∧ b ≠ a := by
  unfold State.store
  rw [List.mem_map]
  constructor
  · rintro ⟨c, hc, rfl⟩
    split
    · exact .inl rfl
    rename_i hne
    refine .inr ⟨hc, ?_⟩
    rintro rfl
    exact hne hid.symm
  rintro (rfl | ⟨hb, hne⟩)
  · exact ⟨a, ha, if_pos hid.symm⟩
  refine ⟨b, hb, if_neg fun heq => hne ?_⟩
  exact h.eq_of_id hb ha (heq.trans hid)

lemma Proper.store (h : Proper s.alarms)
    (hinited : a'.started = true → a'.inited = true) (hinDay : a'.inited = true → InDay a'.wktime) :
    Proper (s.store a').alarms := by
  refine h.map (fun b => ?_) (fun b hb => ?_) fun b hb => ?_
  · split
    · rename_i heq
      exact heq.symm
    rfl
  · split
    · exact hinited
    exact h.inited b hb
  split
  · exact hinDay
  exact h.inDay b hb

lemma ArmedAt.store {t : Nat} (h : Proper s.alarms) (ha : a ∈ s.alarms)
    (hid : a'.id = a.id) (hs : a.started = false ∨ s.current ≠ some a.id) (hs' : a'.started = false)
    (harmed : ArmedAt s t) : ArmedAt (s.store a') t := by
  rintro ⟨b, hb, hbs⟩
  have hold : ∀ {b : Alarm}, b ∈ (s.store a').alarms → b.started = true → b ∈ s.alarms := by
    intro b hb hbs
    rcases (mem_store h ha hid).mp hb with rfl | ⟨hb, -⟩
    · simp [hs'] at hbs
    exact hb
  obtain ⟨c, hc, hcs, hcur, hrtc, hmin⟩ := harmed ⟨b, hold hb hbs, hbs⟩
  refine ⟨c, (mem_store h ha hid).mpr (.inr ⟨hc, ?_⟩), hcs, hcur, hrtc,
    fun d hd hds => hmin d (hold hd hds) hds⟩
  rintro rfl
  rcases hs with hs | hs
  · simp [hs] at hcs
  exact hs hcur

lemma ahead_of_sooner {new old now : Int} (hnew : 0 ≤ new ∧ new < daySecs)
    (hold : 0 ≤ old ∧ old < daySecs) (hne : old ≠ now) :
    (Sooner new old now → ahead daySecs now new ≤ ahead daySecs now old) ∧
      (¬ Sooner new old now → ahead daySecs now old ≤ ahead daySecs now new) := by
  unfold Sooner ahead
  constructor
  · split_ifs <;> omega
  split_ifs <;> omega

lemma startStopped_keeps (h : Proper s.alarms) (ha : a ∈ s.alarms) (hs : a.started = false)
    (hi : a.inited = true) (harmed : ArmedAt s t₂)
    (hcur : ∀ c ∈ s.current, ∃ o ∈ s.alarms, o.id = c ∧ o.started = true ∧ o.daysec ≠ t₂ % daySecs)
    (hstart : startStopped cal s a t₂ = some s') : Proper s'.alarms ∧ ArmedAt s' t₂ := by
  have hday : InDay a.wktime := h.inDay a ha hi
  have hproper : Proper (s.store { a with started := true }).alarms :=
    h.store (fun _ => hi) fun _ => hday
  have hmem : ∀ {b : Alarm}, b ∈ (s.store { a with started := true }).alarms ↔
      b = { a with started := true } ∨ b ∈ s.alarms ∧ b ≠ a := mem_store h ha rfl
  -- armed for the new alarm, it has only to come before the others
  have hnew : (∀ b ∈ s.alarms, b.started = true →
      untilNext t₂ { a with started := true } ≤ untilNext t₂ b) →
      ArmedAt ((s.store { a with started := true }).arm { a with started := true }) t₂ := by
    intro hmin _
    refine ⟨_, hmem.mpr (.inl rfl), rfl, rfl, rfl, fun b hb hbs => ?_⟩
    rcases hmem.mp hb with rfl | ⟨hb, -⟩
    · exact le_rfl
    exact hmin b hb hbs
  unfold startStopped at hstart
  split at hstart
  · rename_i hnone
    cases hstart
    refine ⟨hproper, hnew fun b hb hbs => ?_⟩
    obtain ⟨c, -, -, hc, -⟩ := harmed ⟨b, hb, hbs⟩
    simp [hnone] at hc
  rename_i c hc
  obtain ⟨old, hold, rfl⟩ := map_eq_some_iff.mp hstart
  obtain ⟨holdmem, holdid⟩ := find_spec hold
  obtain ⟨o, ho, hoid, hos, hodue⟩ := hcur c hc
  obtain rfl : old = o := h.eq_of_id holdmem ho (holdid.trans hoid.symm)
  obtain ⟨x, hx, hxs, hxcur, hrtc, hmin⟩ := harmed ⟨old, ho, hos⟩
  obtain rfl : x = old :=
    h.eq_of_id hx ho ((Option.some.inj (hc.symm.trans hxcur)).symm.trans holdid.symm)
  rw [cal.daysec]
  have hcompare := ahead_of_sooner hday.daysec (h.daysec ho hos) hodue
  split
  · rename_i hsooner
    exact ⟨hproper, hnew fun b hb hbs => (hcompare.1 hsooner).trans (hmin b hb hbs)⟩
  rename_i hlater
  refine ⟨hproper, fun _ => ⟨x, hmem.mpr (.inr ⟨hx, ?_⟩), hxs, hxcur, hrtc, fun b hb hbs => ?_⟩⟩
  · rintro rfl
    simp [hs] at hxs
  rcases hmem.mp hb with rfl | ⟨hb, -⟩
  · exact hcompare.2 hlater
  exact hmin b hb hbs

lemma prepared (h : Proper s.alarms) (ha : a ∈ s.alarms) {prep : Alarm × Bool}
    (hprep : prep = if a.inited then (a, true) else alarmSetup a (cal.localtime t₁)) :
    prep.1.id = a.id ∧ prep.1.started = a.started ∧ (prep.2 = true → prep.1.inited = true) ∧
      (prep.1.inited = true → InDay prep.1.wktime) ∧ (a.started = true → prep.1 = a) := by
  split at hprep
  · rename_i hi
    rw [hprep]
    exact ⟨rfl, rfl, fun _ => hi, fun _ => h.inDay a ha hi, fun _ => rfl⟩
  rename_i hi
  obtain ⟨hid, hstarted, hinited⟩ := alarmSetup_same a (cal.localtime t₁)
  rw [hprep]
  refine ⟨hid, hstarted, fun hok => ?_, fun hi' => ?_, fun hs => absurd (h.inited a ha hs) hi⟩
  · rw [hinited, hok, Bool.or_true]
  refine inDay_setup (cal.inDay t₁) ?_
  rw [hinited, Bool.eq_false_iff.mpr hi] at hi'
  exact hi'

lemma store_self (h : Proper s.alarms) (ha : a ∈ s.alarms) : s.store a = s := by
  have hsame : s.alarms.map (fun b => if b.id = a.id then a else b) = s.alarms := by
    calc s.alarms.map (fun b => if b.id = a.id then a else b) = s.alarms.map fun b => b := by
          refine map_congr_left fun b hb => ?_
          split
          · rename_i heq
            exact h.eq_of_id ha hb heq.symm
          rfl
      _ = s.alarms := List.map_id' _
  unfold State.store
  rw [hsame]

lemma start_keeps (h : Inv s) (ht : s.clock ≤ t₂) (hnot : NotReached s t₂)
    (hcur : ∀ c ∈ s.current, ∃ o ∈ s.alarms, o.id = c ∧ o.started = true ∧ o.daysec ≠ t₂ % daySecs)
    (hstart : rtAlarmStart cal s id t₁ t₂ = some s') : Proper s'.alarms ∧ ArmedAt s' t₂ := by
  have harmed := h.armed_later ht hnot
  obtain ⟨a, ha, hstart⟩ := bind_eq_some_iff.mp hstart
  obtain ⟨hmem, -⟩ := find_spec ha
  generalize hprep : (if a.inited then (a, true) else alarmSetup a (cal.localtime t₁)) = prep
    at hstart
  obtain ⟨a', ok⟩ := prep
  obtain ⟨hid, hstarted, hok, hinDay, hself⟩ := prepared h.proper hmem hprep.symm
  simp only at hstart hid hstarted hok hinDay hself
  by_cases hs : a.started = true
  · -- it has been started before
    obtain rfl := hself hs
    have hsame : s' = s := by
      rw [store_self h.proper hmem, if_pos hs, ite_self] at hstart
      exact (Option.some.inj hstart).symm
    rw [hsame]
    exact ⟨h.proper, harmed⟩
  have hs' : a'.started = false := by rw [hstarted, Bool.eq_false_iff]; exact hs
  have hproper : Proper (s.store a').alarms :=
    h.proper.store (fun hs'' => by simp [hs'] at hs'') hinDay
  have harmed' : ArmedAt (s.store a') t₂ :=
    harmed.store h.proper hmem hid (.inl (Bool.eq_false_iff.mpr hs)) hs'
  split at hstart
  · rename_i hyes
    rw [if_neg (by simp [hs'])] at hstart
    refine startStopped_keeps hproper ((mem_store h.proper hmem hid).mpr (.inl rfl)) hs'
      (hok hyes) harmed' ?_ hstart
    intro c hc
    obtain ⟨o, ho, hoid, hos, hodue⟩ := hcur c hc
    refine ⟨o, (mem_store h.proper hmem hid).mpr (.inr ⟨ho, ?_⟩), hoid, hos, hodue⟩
    rintro rfl
    exact hs hos
  cases hstart
  exact ⟨hproper, harmed'⟩

lemma stop_keeps (h : Inv s) (ht : s.clock ≤ t₂) (ha : s.find id = some a)
    (hcond : if s.current = some id then
        CanChoose cal ((s.stop a).unset a) t₁ t₂ else NotReached s t₂) :
    let s' := if s.current = some id then (s.stop a).disarm cal a t₁ t₂ else s.stop a
    Proper s'.alarms ∧ ArmedAt s' t₂ := by
  obtain ⟨hmem, rfl⟩ := find_spec ha
  have hproper : Proper (s.stop a).alarms :=
    h.proper.store (fun hs => by cases hs) (h.proper.inDay a hmem)
  split at hcond
  · rename_i hcur
    simp only [if_pos hcur]
    have hunset : Proper ((s.stop a).unset a).alarms := hproper
    unfold State.disarm
    refine ⟨?_, armed_update hunset hcond ?_⟩
    · rw [alarms_update]
      exact hunset.wakeup t₁
    rintro b - - hb
    cases hb
  rename_i hcur
  simp only [if_neg hcur]
  exact ⟨hproper, (h.armed_later ht hcond).store h.proper hmem rfl (.inr hcur) rfl⟩

lemma filter_keeps {t : Nat} (h : Proper s.alarms) (harmed : ArmedAt s t)
    (hstopped : ∀ b ∈ s.alarms, b.id = id → b.started = false) :
    Proper (s.alarms.filter (·.id ≠ id)) ∧
      ArmedAt { s with alarms := s.alarms.filter (·.id ≠ id) } t := by
  have hmem : ∀ {b : Alarm}, b ∈ s.alarms.filter (·.id ≠ id) ↔ b ∈ s.alarms ∧ b.id ≠ id := by
    simp
  constructor
  · exact ⟨h.nodup.sublist (filter_sublist.map _),
      fun b hb => h.inited b (hmem.mp hb).1, fun b hb => h.inDay b (hmem.mp hb).1⟩
  rintro ⟨b, hb, hbs⟩
  obtain ⟨c, hc, hcs, hcur, hrtc, hmin⟩ := harmed ⟨b, (hmem.mp hb).1, hbs⟩
  refine ⟨c, hmem.mpr ⟨hc, fun hid => ?_⟩, hcs, hcur, hrtc, fun d hd => hmin d (hmem.mp hd).1⟩
  simp [hstopped c hc hid] at hcs

lemma stopped_of_stop (hmem : a ∈ s.alarms) (h : Proper s.alarms) :
    ∀ b ∈ (if s.current = some a.id then (s.stop a).disarm cal a t₁ t₂ else s.stop a).alarms,
      b.id = a.id → b.started = false := by
  have hstop : ∀ b ∈ (s.stop a).alarms, b.id = a.id → b.started = false := by
    intro b hb hid
    have hsame : Alarm.id { a with started := false } = a.id := rfl
    rcases (mem_store h hmem hsame).mp hb with rfl | ⟨hb, hne⟩
    · rfl
    exact absurd (h.eq_of_id hb hmem hid) hne
  split
  · rw [State.disarm, alarms_update, wakeup_alarms]
    intro b hb
    obtain ⟨c, hc, rfl⟩ := List.mem_map.mp hb
    unfold Alarm.woken
    split
    · exact fun _ => rfl
    exact hstop c hc
  exact hstop

lemma Orderly.stop (h : Orderly cal s ⟨.stop id, t₁, t₂⟩) (ha : s.find id = some a) :
    if s.current = some id then CanChoose cal ((s.stop a).unset a) t₁ t₂
    else NotReached s t₂ := by
  simp only [Orderly] at h
  split
  · rename_i hcur
    rw [if_pos hcur] at h
    exact h a ha
  rename_i hcur
  rw [if_neg hcur] at h
  exact h

/-- **A call keeps the next alarm armed** where callers and clock are orderly. -/
theorem inv_step {x : Action} (h : Inv s) (horderly : Orderly cal s x)
    (hstep : step cal s x = some s') : Inv s' := by
  obtain ⟨op, t₁, t₂⟩ := x
  unfold step at hstep
  split at hstep
  on_goal 2 => cases hstep
  rename_i htime
  have ht : s.clock ≤ t₂ := htime.1.trans htime.2
  obtain ⟨s'', hrun, rfl⟩ := map_eq_some_iff.mp hstep
  suffices hkeeps : Proper s''.alarms ∧ ArmedAt s'' t₂ from ⟨hkeeps.1, hkeeps.2⟩
  cases op with
  | start id => exact start_keeps h ht horderly.1 horderly.2 hrun
  | stop id =>
    obtain ⟨a, ha, rfl⟩ := map_eq_some_iff.mp hrun
    have hcond := horderly.stop ha
    split
    · exact stop_keeps h ht ha hcond
    rename_i hs
    refine ⟨h.proper, ?_⟩
    split at hcond
    · -- the current alarm is not started, so none is
      rename_i hcur
      intro hsome
      obtain ⟨c, hc, hcs, hcur', -⟩ := h.armed hsome
      obtain ⟨hmem, hid⟩ := find_spec ha
      have hsame : c.id = a.id := (Option.some.inj (hcur'.symm.trans hcur)).trans hid.symm
      rw [h.proper.eq_of_id hc hmem hsame] at hcs
      exact absurd hcs hs
    exact h.armed_later ht hcond
  | delete id =>
    obtain ⟨a, ha, rfl⟩ := map_eq_some_iff.mp hrun
    obtain ⟨hproper, harmed⟩ := stop_keeps h ht ha (Orderly.stop horderly ha)
    obtain ⟨hmem, rfl⟩ := find_spec ha
    exact filter_keeps hproper harmed (stopped_of_stop hmem h.proper)
  | event =>
    obtain rfl : alarmUpdate cal s t₁ t₂ = s'' := Option.some.inj hrun
    refine ⟨?_, armed_update h.proper horderly fun a ha hs hcur => ?_⟩
    · rw [alarms_update]
      exact h.proper.wakeup t₁
    obtain ⟨c, hc, -, hcur', hrtc, -⟩ := h.armed ⟨a, ha, hs⟩
    rw [h.proper.eq_of_id ha hc (Option.some.inj (hcur.symm.trans hcur')), hrtc]

end

lemma inv_start {s : State} (h : Start s) : Inv s := by
  refine ⟨⟨h.nodup, fun a ha hs => ?_, fun a ha hi => ?_⟩, ?_⟩
  · simp [(h.stopped a ha).2] at hs
  · simp [(h.stopped a ha).1] at hi
  rintro ⟨a, ha, hs⟩
  simp [(h.stopped a ha).2] at hs

/-- **The RTC is set to the next alarm.** Over any run of starts, stops, deletes and alarm events in
which the callers and the clock are orderly, as long as an alarm is started the RTC is enabled and
set to the started alarm that comes next. -/
theorem alarm_armed (cal : Calendar) (s s' : State) (hstart : Start s) (as : List Action)
    (horderly : Meets (step cal) (Orderly cal) s as) (h : exec (step cal) s as = some s') :
    NextArmed s' :=
  NextArmed.of_armedAt (inv_of_meets (fun _ _ _ => inv_step) (inv_start hstart)
    horderly h).armed

/-- A clock that has only the first day. -/
def firstDay : Calendar where
  localtime t := ⟨t % 60, t / 60 % 60, t / 3600 % 24, 1, 0, 100, 6⟩
  mktime time := (alarmMkdaysec time).toNat
  inDay t := by
    constructor <;> simp only <;> omega
  daysec t := by
    simp only [alarmMkdaysec, daySecs]
    omega

/-- The alarm `id` as `rt_alarm_create` makes it, on the first day. -/
def createdAt (id : Nat) (kind : Kind) (hour min : Int) : Alarm :=
  ⟨id, kind, false, false, ⟨0, min, hour, 1, 0, 100, 6⟩⟩

def createdAlarms (alarms : List Alarm) : State := ⟨alarms, none, ⟨false, 0, 0, 0⟩, [], 0⟩

def twoDaily : List Action :=
  [⟨.start 0, 32400, 32400⟩, ⟨.start 1, 32400, 32401⟩, ⟨.event, 36000, 36000⟩]

theorem alarm_armed_noon :
    ∃ s', exec (step firstDay) (createdAlarms [createdAt 0 .daily 12 0, createdAt 1 .daily 10 0])
        twoDaily = some s' ∧ NextArmed s' ∧ s'.rung = [1] ∧ s'.rtc = ⟨true, 0, 0, 12⟩ := by
  obtain ⟨s', hs', hrung, hrtc⟩ : ∃ s', exec (step firstDay)
      (createdAlarms [createdAt 0 .daily 12 0, createdAt 1 .daily 10 0]) twoDaily = some s' ∧
      s'.rung = [1] ∧ s'.rtc = ⟨true, 0, 0, 12⟩ := ⟨_, rfl, by decide, by decide⟩
  exact ⟨s', hs', alarm_armed firstDay _ _ ⟨by decide, by decide, rfl⟩ twoDaily (by decide) hs',
    hrung, hrtc⟩

/-- **A one-shot alarm that has gone off stands in the way.** At ten o'clock the only alarm goes
off; it stays the current one, with the RTC disabled. The alarm for half past ten that is started at
eleven is compared with it, and the RTC is not set. -/
theorem expired_alarm_blocks : ∃ s', exec (step firstDay)
        (createdAlarms [createdAt 0 .oneshot 10 0, createdAt 1 .daily 10 30])
        [⟨.start 0, 32400, 32400⟩, ⟨.event, 36000, 36000⟩, ⟨.start 1, 39600, 39600⟩] = some s' ∧
      (∃ a ∈ s'.alarms, a.started = true) ∧ s'.rtc.enable = false ∧ ¬ NextArmed s' := by
  unfold NextArmed
  decide

end NbIot.Alarms
