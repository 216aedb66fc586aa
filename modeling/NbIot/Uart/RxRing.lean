import NbIot.Basic.Run
import NbIot.Basic.LapRing

/-! # The receive ring of the UART drivers

`drivers/uart_com.c` and `drivers/uart.c` keep the bytes that arrive in a ring of
`RT_UART_RX_BUFFER_SIZE` cells per device. The interrupt side (`rt_uart_com_irqhandler`,
`uart_rx_process`) stores, wraps `save_index` and reports a length to `rx_indicate`; the reader
(`rt_uart_com_read`, `rt_uart_read`) fetches byte by byte, each byte under disabled interrupts.

The two drivers have the same code, so there is one model, of a table of devices. A step is an
interrupt or one turn of the loop of a read call; any number of calls may be under way at once.
-/

namespace NbIot.Uart

open Run List Option

/-! ## The driver -/

/-- `RT_UART_RX_BUFFER_SIZE` of `rtconfig.h`. -/
def rxBufferSize : Nat := 64

/-- `struct rt_uart_com_ls1c` and `struct rt_uart_ls1c`, as far as reception uses them: whether
`parent.rx_indicate` is set, the bit `RT_DEVICE_FLAG_INT_RX` of `parent.flag`, the two 8-bit
indices and the buffer. -/
structure Device where
  rxIndicate : Bool
  intRx : Bool
  readIndex : Nat
  saveIndex : Nat
  rxBuffer : Nat → UInt8

/-- `index ++; if (index >= RT_UART_RX_BUFFER_SIZE) index = 0;` on a `rt_uint8_t`. -/
def bump (index : Nat) : Nat :=
  if rxBufferSize ≤ (index + 1) % 256 then 0 else (index + 1) % 256

def storeByte (uart : Device) (dat : UInt8) : Device :=
  { uart with
    rxBuffer := Function.update uart.rxBuffer uart.saveIndex dat
    saveIndex := bump uart.saveIndex }

/-- The length that is passed to `rx_indicate`. -/
def rxLength (uart : Device) : Nat :=
  if uart.saveIndex < uart.readIndex then rxBufferSize - uart.readIndex + uart.saveIndex
  else uart.saveIndex - uart.readIndex

/-- The handler looks at the receive bit of the interrupt identification register only. -/
def dataAvailable (iir : UInt8) : Bool := ((iir >>> 1) &&& 0x3) &&& 0x02 != 0

/-- `uart_rx_process`, which is also what `rt_uart_com_irqhandler` does to its device: `iir` is
the interrupt identification register, `dat` the bytes read until `UARTLSR_DR` is clear. The
second component is the argument of `rx_indicate`, if it is called. -/
def uartRxProcess (uart : Device) (iir : UInt8) (dat : List UInt8) : Device × Option Nat :=
  if dataAvailable iir then
    let uart := dat.foldl storeByte uart
    (uart, if uart.rxIndicate then some (rxLength uart) else none)
  else (uart, none)

/-- The devices of the two drivers: `uart_com_device[12]`, `uart1_device` and `uart2_device`. -/
inductive Port where
  | com (i : Fin 12)
  | uart1
  | uart2
  deriving DecidableEq

inductive Handler where
  | com (irqno : Nat)
  | uart1
  | uart2

/-- The device an interrupt handler works on; `rt_uart_com_irqhandler` returns at once for an
interrupt number that is none of a UART. -/
def Handler.port : Handler → Option Port
  | .com irqno =>
    if irqno = 2 then some (.com 0)
    else if irqno = 4 then some (.com 1)
    else if irqno = 5 then some (.com 2)
    else if irqno = 29 then some (.com 3)
    else if h : 37 ≤ irqno ∧ irqno ≤ 41 then some (.com ⟨irqno - 33, by omega⟩)
    else if h : 45 ≤ irqno ∧ irqno ≤ 47 then some (.com ⟨irqno - 36, by omega⟩)
    else none
  | .uart1 => some .uart1
  | .uart2 => some .uart2

/-- The critical section of `rt_uart_com_read`: fetch a byte, or find no data in the buffer. -/
def fetchByte (uart : Device) : Option (UInt8 × Device) :=
  if uart.readIndex ≠ uart.saveIndex then
    some (uart.rxBuffer uart.readIndex, { uart with readIndex := bump uart.readIndex })
  else none

/-- The loop of `rt_uart_com_read(dev, pos, buffer, size)` when no interrupt comes in between:
the bytes it writes to the buffer. -/
def rtUartComRead (uart : Device) : Nat → List UInt8
  | 0 => []
  | size + 1 =>
    match fetchByte uart with
    | none => []
    | some (b, uart) => b :: rtUartComRead uart size

def readable (uart : Device) : List UInt8 := rtUartComRead uart rxBufferSize

/-! ## Runs -/

/-- What happened on a device: the bytes received, the bytes delivered to readers, and for each
call of `rx_indicate` the length passed and the number of bytes received and not delivered. -/
structure Hist where
  received : List UInt8
  delivered : List UInt8
  indicated : List (Nat × Nat)

def Hist.pending (h : Hist) : Nat := h.received.length - h.delivered.length

/-- A read call under way: its device, the rest of `size`, and what was written to its buffer. -/
structure Call where
  port : Port
  size : Nat
  out : List UInt8

structure State where
  devs : Port → Device
  hist : Port → Hist
  calls : Nat → Option Call

inductive Action where
  /-- An interrupt. -/
  | irq (h : Handler) (iir : UInt8) (dat : List UInt8)
  /-- `rt_device_set_rx_indicate`. -/
  | setRxIndicate (p : Port) (on : Bool)
  /-- A reader enters the read function. -/
  | call (reader : Nat) (p : Port) (size : Nat)
  /-- A reader's call makes one turn of its loop, or returns. -/
  | turn (reader : Nat)

/-- An interrupt on the device `p`. -/
def interrupt (s : State) (p : Port) (iir : UInt8) (dat : List UInt8) : State :=
  let r := uartRxProcess (s.devs p) iir dat
  let received := (s.hist p).received ++ (if dataAvailable iir then dat else [])
  let delivered := (s.hist p).delivered
  let h : Hist :=
    { received := received
      delivered := delivered
      indicated := (s.hist p).indicated ++
        r.2.toList.map fun len => (len, received.length - delivered.length) }
  { s with devs := Function.update s.devs p r.1, hist := Function.update s.hist p h }

/-- One turn of the loop of the call `c`. -/
def turnOf (s : State) (reader : Nat) (c : Call) : State :=
  if c.size = 0 then { s with calls := Function.update s.calls reader none }
  else
    match fetchByte (s.devs c.port) with
    | none => { s with calls := Function.update s.calls reader none }
    | some (b, uart) =>
      let h := s.hist c.port
      { devs := Function.update s.devs c.port uart
        hist := Function.update s.hist c.port { h with delivered := h.delivered ++ [b] }
        calls := Function.update s.calls reader (some ⟨c.port, c.size - 1, c.out ++ [b]⟩) }

/-- One step. A reader has one call at a time; a call on a device without
`RT_DEVICE_FLAG_INT_RX` returns at once. -/
def step (s : State) : Action → Option State
  | .irq h iir dat =>
    match h.port with
    | none => some s
    | some p => some (interrupt s p iir dat)
  | .setRxIndicate p on =>
    some { s with devs := Function.update s.devs p { s.devs p with rxIndicate := on } }
  | .call reader p size =>
    if s.calls reader = none then
      if (s.devs p).intRx then
        some { s with calls := Function.update s.calls reader (some ⟨p, size, []⟩) }
      else some s
    else none
  | .turn reader => (s.calls reader).map fun c => turnOf s reader c

def init (rxIndicate intRx : Port → Bool) : State where
  devs p := ⟨rxIndicate p, intRx p, 0, 0, fun _ => 0⟩
  hist _ := ⟨[], [], []⟩
  calls _ := none

/-! ## The ring of a port -/

def Device.ring (uart : Device) : LapRing.Ring UInt8 :=
  ⟨uart.rxBuffer, uart.readIndex, uart.saveIndex⟩

/-- The ring of `uart` after `received` and `delivered`. -/
abbrev Device.Holds (uart : Device) (received delivered : List UInt8) : Prop :=
  LapRing.Holds rxBufferSize uart.ring received delivered

lemma rxBufferSize_pos : 0 < rxBufferSize := by decide

section

variable {uart : Device} {recv delv : List UInt8}

lemma bump_mod (k : Nat) :
    bump (k % rxBufferSize) = LapRing.next rxBufferSize (k % rxBufferSize) := by
  unfold bump LapRing.next rxBufferSize
  split <;> split <;> omega

variable (h : uart.Holds recv delv) {uart' : Device} {b : UInt8}

include h

lemma holds_storeByte (dat : UInt8) : (storeByte uart dat).Holds (recv ++ [dat]) delv := by
  have hput := h.put rxBufferSize_pos dat
  have hring : (storeByte uart dat).ring = LapRing.put rxBufferSize uart.ring dat := by
    have hwr : uart.saveIndex = recv.length % rxBufferSize := h.wr
    simp only [Device.ring, storeByte, LapRing.put]
    rw [hwr, bump_mod]
  rw [Device.Holds, hring]
  exact hput

lemma holds_storeBytes (dat : List UInt8) :
    (dat.foldl storeByte uart).Holds (recv ++ dat) delv := by
  induction dat generalizing uart recv with
  | nil => simpa using h
  | cons b dat ih =>
    have hrest := ih (holds_storeByte h b)
    rwa [append_assoc] at hrest

lemma fetchByte_ring :
    (fetchByte uart).map (fun q => (q.1, q.2.ring)) = LapRing.get rxBufferSize uart.ring := by
  have hrd : uart.readIndex = delv.length % rxBufferSize := h.rd
  have hbump : bump uart.readIndex = LapRing.next rxBufferSize uart.readIndex := by
    rw [hrd, bump_mod]
  by_cases hne : uart.readIndex ≠ uart.saveIndex
  · have hne' : uart.ring.rd ≠ uart.ring.wr := hne
    rw [fetchByte, if_pos hne, LapRing.get, if_pos hne', hbump]
    rfl
  have hne' : ¬uart.ring.rd ≠ uart.ring.wr := hne
  rw [fetchByte, if_neg hne, LapRing.get, if_neg hne', map_none]

lemma holds_fetchByte (hf : fetchByte uart = some (b, uart')) : uart'.Holds recv (delv ++ [b]) := by
  have hget := fetchByte_ring h
  rw [hf] at hget
  exact h.get rxBufferSize_pos hget.symm

lemma pending_of_fetchByte (hf : fetchByte uart = some (b, uart')) :
    (recv.length - delv.length) % rxBufferSize ≠ 0 := by
  have hget := fetchByte_ring h
  rw [hf] at hget
  intro hz
  rw [h.get_eq_none.mpr hz] at hget
  simp at hget

lemma rtUartComRead_eq (size : Nat) :
    rtUartComRead uart size = LapRing.drain rxBufferSize size uart.ring := by
  induction size generalizing uart delv with
  | zero => rfl
  | succ size ih =>
    have hget := fetchByte_ring h
    rw [rtUartComRead, LapRing.drain]
    cases hf : fetchByte uart with
    | none =>
      rw [hf, map_none] at hget
      rw [← hget]
    | some q =>
      obtain ⟨b, uart'⟩ := q
      rw [hf, map_some] at hget
      rw [← hget]
      show b :: rtUartComRead uart' size = _
      rw [ih (holds_fetchByte h hf)]

lemma readable_eq :
    readable uart = recv.drop (recv.length - (recv.length - delv.length) % rxBufferSize) := by
  have hlt : (recv.length - delv.length) % rxBufferSize < rxBufferSize :=
    Nat.mod_lt _ rxBufferSize_pos
  rw [readable, rtUartComRead_eq h, h.drain_eq rxBufferSize_pos, take_of_length_le]
  · rfl
  rw [length_drop, LapRing.unread]
  omega

lemma rxLength_eq : rxLength uart = (recv.length - delv.length) % rxBufferSize := by
  have hle := h.le
  have hwr : uart.saveIndex = recv.length % rxBufferSize := h.wr
  have hrd : uart.readIndex = delv.length % rxBufferSize := h.rd
  rw [rxLength, hwr, hrd]
  unfold rxBufferSize
  split <;> omega

end

/-! ## What a step preserves -/

/-- The invariant of a device: its ring holds what its history says, and every reported length
was the number of pending bytes modulo the size; pending bytes that were overrun stay pending. -/
structure DevOk (uart : Device) (h : Hist) : Prop where
  holds : uart.Holds h.received h.delivered
  indicated : ∀ q ∈ h.indicated,
    q.1 = q.2 % rxBufferSize ∧ q.2 / rxBufferSize ≤ h.pending / rxBufferSize

structure Later (h h' : Hist) : Prop where
  received : h.received.length ≤ h'.received.length
  delivered : h.delivered.length ≤ h'.delivered.length
  overrun : h.pending / rxBufferSize ≤ h'.pending / rxBufferSize

lemma Later.refl (h : Hist) : Later h h := ⟨le_rfl, le_rfl, le_rfl⟩

lemma Later.trans {h1 h2 h3 : Hist} (a : Later h1 h2) (b : Later h2 h3) : Later h1 h3 :=
  ⟨a.1.trans b.1, a.2.trans b.2, a.3.trans b.3⟩

def Advances (s s' : State) (p : Port) : Prop :=
  DevOk (s'.devs p) (s'.hist p) ∧ Later (s.hist p) (s'.hist p)

variable {s s' : State} {as : List Action} {p : Port} {t : State}

lemma advances_interrupt (hok : DevOk (s.devs p) (s.hist p))
    (iir : UInt8) (dat : List UInt8) : Advances s (interrupt s p iir dat) p := by
  unfold Advances
  simp only [interrupt, Function.update_self]
  cases hav : dataAvailable iir with
  | false =>
    simp only [uartRxProcess, hav, Bool.false_eq_true, if_false, toList_none, map_nil, append_nil]
    exact ⟨hok, Later.refl _⟩
  | true =>
    simp only [uartRxProcess, hav, if_true]
    have hst := holds_storeBytes hok.holds dat
    have hlen := rxLength_eq hst
    have hgrow : (s.hist p).received.length ≤ ((s.hist p).received ++ dat).length := by simp
    have hover : (s.hist p).pending / rxBufferSize ≤
        (((s.hist p).received ++ dat).length - (s.hist p).delivered.length) / rxBufferSize :=
      Nat.div_le_div_right (by unfold Hist.pending; omega)
    refine ⟨⟨hst, ?_⟩, hgrow, le_rfl, hover⟩
    intro q hq
    rcases mem_append.mp hq with hq | hq
    · exact ⟨(hok.indicated q hq).1, (hok.indicated q hq).2.trans hover⟩
    obtain ⟨len, hlen', rfl⟩ := List.mem_map.mp hq
    split at hlen'
    · simp only [toList_some, mem_singleton] at hlen'
      subst hlen'
      exact ⟨hlen, le_rfl⟩
    simp at hlen'

lemma advances_turn {c : Call} (hok : DevOk (s.devs c.port) (s.hist c.port))
    {b : UInt8} {uart : Device} (hf : fetchByte (s.devs c.port) = some (b, uart)) :
    DevOk uart { s.hist c.port with delivered := (s.hist c.port).delivered ++ [b] } ∧
      Later (s.hist c.port)
        { s.hist c.port with delivered := (s.hist c.port).delivered ++ [b] } := by
  have hh := holds_fetchByte hok.holds hf
  have hne := pending_of_fetchByte hok.holds hf
  have hover : ({ s.hist c.port with delivered := (s.hist c.port).delivered ++ [b] } :
      Hist).pending / rxBufferSize = (s.hist c.port).pending / rxBufferSize := by
    simp only [Hist.pending, length_append, length_singleton]
    unfold rxBufferSize at *
    omega
  refine ⟨⟨hh, fun q hq => ?_⟩, le_rfl, by simp, hover.ge⟩
  rw [hover]
  exact hok.indicated q hq

lemma advances_refl (hok : DevOk (s.devs p) (s.hist p))
    (hd : s'.devs p = s.devs p) (hh : s'.hist p = s.hist p) : Advances s s' p := by
  unfold Advances
  rw [hd, hh]
  exact ⟨hok, Later.refl _⟩

lemma advances_turnOf (hok : ∀ p, DevOk (s.devs p) (s.hist p)) (reader : Nat)
    (c : Call) (p : Port) : Advances s (turnOf s reader c) p := by
  unfold turnOf
  by_cases hz : c.size = 0
  · rw [if_pos hz]
    exact advances_refl (hok p) rfl rfl
  rw [if_neg hz]
  cases hf : fetchByte (s.devs c.port) with
  | none => exact advances_refl (hok p) rfl rfl
  | some q =>
    by_cases hp : p = c.port
    · subst hp
      obtain ⟨h1, h2⟩ := advances_turn (hok c.port) hf
      unfold Advances
      simp only [Function.update_self]
      exact ⟨h1, h2⟩
    refine advances_refl (hok p) ?_ ?_ <;> simp [hp]

lemma advances_step {a : Action} (hok : ∀ p, DevOk (s.devs p) (s.hist p))
    (h : step s a = some s') (p : Port) : Advances s s' p := by
  cases a with
  | irq hd iir dat =>
    rw [step] at h
    cases hport : hd.port with
    | none =>
      rw [hport] at h
      cases h
      exact advances_refl (hok p) rfl rfl
    | some q =>
      rw [hport] at h
      cases h
      by_cases hp : p = q
      · subst hp
        exact advances_interrupt (hok p) iir dat
      refine advances_refl (hok p) ?_ ?_ <;> simp [interrupt, hp]
  | setRxIndicate q on =>
    cases h
    by_cases hp : p = q
    · subst hp
      unfold Advances
      simp only [Function.update_self]
      exact ⟨⟨(hok p).holds, (hok p).indicated⟩, Later.refl _⟩
    refine advances_refl (hok p) ?_ rfl
    simp [hp]
  | call reader q size =>
    rw [step] at h
    split at h
    · split at h
      · cases h
        exact advances_refl (hok p) rfl rfl
      cases h
      exact advances_refl (hok p) rfl rfl
    simp at h
  | turn reader =>
    obtain ⟨c, -, rfl⟩ := map_eq_some_iff.mp h
    exact advances_turnOf hok reader c p

lemma advances_exec (hok : ∀ p, DevOk (s.devs p) (s.hist p))
    (h : exec step s as = some s') (p : Port) : Advances s s' p := by
  have hinv : (∀ p, DevOk (s'.devs p) (s'.hist p)) ∧ ∀ p, Later (s.hist p) (s'.hist p) := by
    refine inv_of_exec (I := fun t => (∀ p, DevOk (t.devs p) (t.hist p)) ∧
      ∀ p, Later (s.hist p) (t.hist p)) ?_ ⟨hok, fun q => Later.refl _⟩ h
    intro t a t' ht hstep
    exact ⟨fun q => (advances_step ht.1 hstep q).1,
      fun q => (ht.2 q).trans (advances_step ht.1 hstep q).2⟩
  exact ⟨hinv.1 p, hinv.2 p⟩

lemma devOk_init (rxIndicate intRx : Port → Bool) (p : Port) :
    DevOk ((init rxIndicate intRx).devs p) ((init rxIndicate intRx).hist p) :=
  ⟨LapRing.holds_empty _, by simp [init]⟩

/-! ## The newest bytes -/

/-- The reader has caught up: the indices are equal. -/
def CaughtUp (s : State) (p : Port) : Prop := (s.devs p).readIndex = (s.devs p).saveIndex

/-- Of `k` bytes exactly the newest `k` modulo the buffer size are readable. -/
def NewestReadable (s : State) (p : Port) (k : Nat) : Prop :=
  readable (s.devs p) =
    (s.hist p).received.drop ((s.hist p).received.length - k % rxBufferSize)

lemma newestReadable_since (hok : DevOk (t.devs p) (t.hist p))
    (hadv : Advances t s p) (hc : CaughtUp t p) :
    ∃ c d, (s.hist p).received.length = (t.hist p).received.length + c ∧
      (s.hist p).delivered.length = (t.hist p).delivered.length + d ∧ d ≤ c ∧
      NewestReadable s p (c - d) := by
  obtain ⟨hs, hr, hd, hover⟩ := hadv
  have hle := hok.holds.le
  have hle' := hs.holds.le
  have hz : ((t.hist p).received.length - (t.hist p).delivered.length) % rxBufferSize = 0 := by
    have hw : (t.devs p).saveIndex = (t.hist p).received.length % rxBufferSize := hok.holds.wr
    have hrd : (t.devs p).readIndex = (t.hist p).delivered.length % rxBufferSize := hok.holds.rd
    exact (LapRing.mod_eq_iff_unread hle).mp (by rw [← hrd, ← hw]; exact hc)
  obtain ⟨c, hc'⟩ := Nat.exists_eq_add_of_le hr
  obtain ⟨d, hd'⟩ := Nat.exists_eq_add_of_le hd
  have hdc : d ≤ c := by
    unfold Hist.pending rxBufferSize at *
    omega
  refine ⟨c, d, hc', hd', hdc, ?_⟩
  have hmod : ((s.hist p).received.length - (s.hist p).delivered.length) % rxBufferSize =
      (c - d) % rxBufferSize := by
    unfold rxBufferSize at *
    omega
  rw [NewestReadable, readable_eq hs.holds, hmod]

/-- **The receive ring.** In every run, for every device: the bytes delivered are a sublist of
the bytes received; while at most `RT_UART_RX_BUFFER_SIZE - 1` bytes are pending nothing is lost
and `rx_indicate` gets the number of pending bytes; and with `c` bytes received and `d` delivered
since a moment at which the reader had caught up, the newest `c - d` modulo the buffer size are
readable, so that what an overrun drops is a multiple of the buffer size. -/
theorem rx_ring_law (rxIndicate intRx : Port → Bool) (as : List Action) (s : State)
    (h : exec step (init rxIndicate intRx) as = some s) (p : Port) :
    (s.hist p).delivered.Sublist (s.hist p).received ∧
    ((∀ t, Reached step (init rxIndicate intRx) as t → (t.hist p).pending ≤ rxBufferSize - 1) →
      (s.hist p).received = (s.hist p).delivered ++ readable (s.devs p) ∧
        ∀ q ∈ (s.hist p).indicated, q.1 = q.2) ∧
    ∀ as₁ as₂ t, as = as₁ ++ as₂ → exec step (init rxIndicate intRx) as₁ = some t →
      CaughtUp t p →
      ∃ c d, (s.hist p).received.length = (t.hist p).received.length + c ∧
        (s.hist p).delivered.length = (t.hist p).delivered.length + d ∧ d ≤ c ∧
        NewestReadable s p (c - d) ∧
        c - d - (readable (s.devs p)).length = rxBufferSize * ((c - d) / rxBufferSize) := by
  have hinit := devOk_init rxIndicate intRx
  have hok := (advances_exec hinit h p).1
  refine ⟨hok.holds.sub.trans (take_sublist _ _), ?_, ?_⟩
  · intro hall
    have hpend : (s.hist p).pending ≤ rxBufferSize - 1 := hall s (reached_last h)
    have hlt : (s.hist p).received.length - (s.hist p).delivered.length < rxBufferSize := by
      unfold Hist.pending rxBufferSize at *
      omega
    refine ⟨?_, fun q hq => ?_⟩
    · have hle := hok.holds.le
      have htake := hok.holds.eq_take hlt
      rw [readable_eq hok.holds, Nat.mod_eq_of_lt hlt, Nat.sub_sub_self hle]
      calc (s.hist p).received
          = (s.hist p).received.take (s.hist p).delivered.length ++
              (s.hist p).received.drop (s.hist p).delivered.length :=
            (take_append_drop _ _).symm
        _ = (s.hist p).delivered ++ (s.hist p).received.drop (s.hist p).delivered.length := by
            rw [← htake]
    obtain ⟨h1, h2⟩ := hok.indicated q hq
    unfold Hist.pending rxBufferSize at *
    omega
  intro as₁ as₂ t has ht hc
  subst has
  rw [exec_append, ht] at h
  have hokt : ∀ q, DevOk (t.devs q) (t.hist q) := fun q => (advances_exec hinit ht q).1
  obtain ⟨c, d, hr, hd, hdc, hnew⟩ := newestReadable_since (hokt p) (advances_exec hokt h p) hc
  refine ⟨c, d, hr, hd, hdc, hnew, ?_⟩
  have hlen : (readable (s.devs p)).length = (c - d) % rxBufferSize := by
    have hle : (c - d) % rxBufferSize ≤ c - d := Nat.mod_le _ _
    rw [hnew, length_drop]
    omega
  have hdiv := Nat.mod_add_div (c - d) rxBufferSize
  omega

def partialRead : List Action :=
  [.irq (.com 29) 0x04 [0x41, 0x54], .call 0 (.com 3) 1, .turn 0]

def view (as : List Action) : Option (Nat × Nat × Nat × List UInt8) :=
  (exec step (init (fun _ => true) fun _ => true) as).map fun s =>
    ((s.devs (.com 3)).readIndex, (s.devs (.com 3)).saveIndex, (s.hist (.com 3)).pending,
      readable (s.devs (.com 3)))

lemma partialRead_before (hpre : as <+: partialRead)
    (ht : exec step (init (fun _ => true) fun _ => true) as = some t) :
    (t.hist (.com 3)).pending ≤ 2 ∧ (as ≠ [] → ¬CaughtUp t (.com 3)) := by
  have key : ∀ as ∈ partialRead.inits, ∀ v ∈ view as,
      v.2.2.1 ≤ 2 ∧ (as.length ≠ 0 → v.1 ≠ v.2.1) := by decide +kernel
  have hv := key as ((mem_inits _ _).mpr hpre) _ (by rw [view, ht]; rfl)
  exact ⟨hv.1, fun hne => hv.2 (by simpa using hne)⟩

theorem rx_ring_law_partialRead :
    ∃ s, exec step (init (fun _ => true) fun _ => true) partialRead = some s ∧
      (s.hist (.com 3)).received = (s.hist (.com 3)).delivered ++ readable (s.devs (.com 3)) ∧
      ∃ c d, (s.hist (.com 3)).received.length = c ∧ (s.hist (.com 3)).delivered.length = d ∧
        NewestReadable s (.com 3) (c - d) := by
  obtain ⟨s, hs⟩ : ∃ s, exec step (init (fun _ => true) fun _ => true) partialRead = some s :=
    isSome_iff_exists.mp (by decide +kernel)
  obtain ⟨-, hlost, hnew⟩ := rx_ring_law (fun _ => true) (fun _ => true) partialRead s hs (.com 3)
  have hpend : ∀ t, Reached step (init (fun _ => true) fun _ => true) partialRead t →
      (t.hist (.com 3)).pending ≤ rxBufferSize - 1 := by
    rintro t ⟨as, hpre, ht⟩
    exact (partialRead_before hpre ht).1.trans (by decide)
  obtain ⟨c, d, hc, hd, -, hn, -⟩ := hnew [] partialRead _ rfl rfl rfl
  refine ⟨s, hs, (hlost hpend).1, c, d, ?_, ?_, hn⟩
  · rw [hc]
    exact zero_add c
  rw [hd]
  exact zero_add d

/-- After a partial read it is not the bytes received since the reader last caught up that count:
two were received, and only the second of them is readable. -/
theorem partialRead_readable :
    ∃ s, exec step (init (fun _ => true) fun _ => true) partialRead = some s ∧
      CaughtUp (init (fun _ => true) fun _ => true) (.com 3) ∧
      (∀ as t, as <+: partialRead → as ≠ [] →
        exec step (init (fun _ => true) fun _ => true) as = some t → ¬CaughtUp t (.com 3)) ∧
      (s.hist (.com 3)).received.length = 2 ∧ ¬NewestReadable s (.com 3) 2 := by
  obtain ⟨s, hs, hrecv, hread⟩ : ∃ s,
      exec step (init (fun _ => true) fun _ => true) partialRead = some s ∧
        (s.hist (.com 3)).received = [0x41, 0x54] ∧ readable (s.devs (.com 3)) = [0x54] := by
    decide +kernel
  refine ⟨s, hs, rfl, fun as t hpre hne ht => (partialRead_before hpre ht).2 hne, ?_, ?_⟩
  · rw [hrecv]
    rfl
  rw [NewestReadable, hrecv, hread]
  decide

end NbIot.Uart
