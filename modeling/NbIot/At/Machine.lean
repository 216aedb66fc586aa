import Mathlib.Tactic

/-! # The AT dialogue of `applications/application.c`

`rt_run_example2_thread_entry` drives an NB-IoT module over a serial line. It is an endless loop
over a switch on `atstate`; five handlers write an AT command in one turn (`link_NBIOT` is
`SEND_TO_NBIOT`) and wait for the final result code in a later one (`RECV_FROM_NBIOT`), the
handler of `AT_RECV_MSG` polls for a notification with a time limit.

The machine takes a step for each turn of the outer loop and for each turn of the loops of
`AtUart3ReadTimeOut`. The only input is what `rt_device_read` returns, one chunk of bytes per
step. The delays and the log output of the source are left out.
-/

namespace NbIot.At

/-! ## States and results -/

inductive UdpState where
  | autoConnCfg
  | createSocket
  | sendMsg
  | recvMsg
  | readMsg
  | closeSocket
  | idle
  deriving DecidableEq

def UdpState.toInt : UdpState → Int
  | .autoConnCfg => 0
  | .createSocket => 1
  | .sendMsg => 2
  | .recvMsg => 3
  | .readMsg => 4
  | .closeSocket => 5
  | .idle => 6

/-- The case of `switch(atstate)`; `none` is `default`. -/
def UdpState.ofInt (v : Int) : Option UdpState :=
  if v = 0 then some .autoConnCfg
  else if v = 1 then some .createSocket
  else if v = 2 then some .sendMsg
  else if v = 3 then some .recvMsg
  else if v = 4 then some .readMsg
  else if v = 5 then some .closeSocket
  else if v = 6 then some .idle
  else none

lemma UdpState.ofInt_toInt (u : UdpState) : UdpState.ofInt u.toInt = some u := by
  cases u <;> rfl

def sendToNbiot : Int := 0
def recvFromNbiot : Int := 1

def atFail : Int := -1

def atNbiotRxBufferSize : Nat := 512

/-- The `size` argument of every read. -/
def readSize : Nat := 256

/-- `TimeOutMs / 20` for the timeout of `nbiot_atcmd_NSONMI`. -/
def ticktimeout : Nat := 1000 / 20

/-- `"OK"`. -/
def strOK : List UInt8 := [0x4f, 0x4b]

/-- `"ERROR"`. -/
def strERROR : List UInt8 := [0x45, 0x52, 0x52, 0x4f, 0x52]

/-- `"+NSONMI:"`. -/
def strNSONMI : List UInt8 := [0x2b, 0x4e, 0x53, 0x4f, 0x4e, 0x4d, 0x49, 0x3a]

/-! ## The buffer and its tests -/

/-- The value of a 32-bit `int` after an overflow. -/
def wrap32 (v : Int) : Int := Int.bmod v (2 ^ 32)

def rxBuffer (rx : List UInt8) : List UInt8 :=
  rx ++ List.replicate (atNbiotRxBufferSize - rx.length) 0

/-- `rt_memcmp(buf + i, str, strlen(str)) == 0`. -/
def memEq (buf : List UInt8) (i : Nat) (str : List UInt8) : Bool :=
  (buf.drop i).take str.length == str

def atStrCompare (recvBuf : List UInt8) (recvSize : Nat) (cmpStr : List UInt8) : Bool :=
  (List.range recvSize).any fun i => memEq recvBuf i cmpStr

def atCheckRecvData (rx : List UInt8) : Bool := atStrCompare (rxBuffer rx) rx.length strOK

/-- The loops of `AtUart3ReadTimeOut` end when a final result code is in the buffer. -/
def hasResult (rx : List UInt8) : Bool :=
  atStrCompare (rxBuffer rx) rx.length strERROR || atStrCompare (rxBuffer rx) rx.length strOK

def isDigit (ch : UInt8) : Bool := 0x30 ≤ ch && ch ≤ 0x39

/-- `v * 10 + (ch - '0')`. -/
def addDigit (v : Int) (ch : UInt8) : Int :=
  wrap32 (wrap32 (v * 10) + (ch.toNat - 0x30 : Int))

/-- `AtGetSocketId(recvBuf, recvSize)`: the decimal digits of the whole reply, appended to the
initial value `AT_FAIL`. -/
def atGetSocketId (rx : List UInt8) : Int :=
  if atCheckRecvData rx then
    rx.foldl (fun id ch => if isDigit ch then addDigit id ch else id) atFail
  else atFail

/-- The first loop of `nbiot_atcmd_NSONMI`: the position behind `+NSONMI:`, or `0`. -/
def findNSONMI (rx : List UInt8) : Nat :=
  match (List.range rx.length).find? fun i => memEq (rxBuffer rx) i strNSONMI with
  | some i => i + 8
  | none => 0

/-- The second loop of `nbiot_atcmd_NSONMI`, from the position `pos` on: the socket number, and
the position behind the comma, if there is one. -/
def scanSocket : List UInt8 → Nat → Int → Int × Option Nat
  | [], _, id => (id, none)
  | ch :: rest, pos, id =>
    let id := if isDigit ch then addDigit id ch else id
    if ch = 0x2c then (id, some (pos + 1)) else scanSocket rest (pos + 1) id

/-- The third loop of `nbiot_atcmd_NSONMI`: the message length. -/
def scanLength (rest : List UInt8) : Int :=
  rest.foldl (fun len ch => if isDigit ch then addDigit len ch else len) 0

/-! ## Commands, events and handlers -/

inductive Cmd where
  | nconfig
  | nsocr
  | nsost (socketID : Int)
  | nsorf (socketid msglen : Int)
  | nsocl (socketID : Int)
  deriving DecidableEq

inductive Event where
  | write (c : Cmd)
  | enterWait
  | endWait (reply : List UInt8)
  deriving DecidableEq

inductive Handler where
  | nconfig
  | nsocr
  | nsost
  | nsorf
  | nsocl
  deriving DecidableEq

/-- Where the program is: at the switch, in the unbounded wait of a handler with the bytes read
so far, or in the timed wait of `nbiot_atcmd_NSONMI`. -/
inductive Pc where
  | top
  | wait (h : Handler) (rx : List UInt8)
  | poll (i : Nat) (rx : List UInt8)
  deriving DecidableEq

/-- The global variables `atstate`, `link_NBIOT`, `socketID` and `smsg`, the place in the
program and the log. -/
structure State where
  atstate : Int
  linkNbiot : Int
  socketID : Int
  smsgSocketid : Int
  smsgMsglen : Int
  pc : Pc
  log : List Event

def Handler.cmd (s : State) : Handler → Cmd
  | .nconfig => .nconfig
  | .nsocr => .nsocr
  | .nsost => .nsost s.socketID
  | .nsorf => .nsorf s.smsgSocketid s.smsgMsglen
  | .nsocl => .nsocl s.socketID

/-- The two cases of the switch on `link_NBIOT` up to the wait, the same in the five handlers. -/
def Handler.enter (s : State) (h : Handler) : State :=
  if s.linkNbiot = sendToNbiot then
    { s with linkNbiot := recvFromNbiot, log := s.log ++ [.write (h.cmd s)] }
  else if s.linkNbiot = recvFromNbiot then
    { s with pc := .wait h [], log := s.log ++ [.enterWait] }
  else s

/-! ## The handlers -/

def nbiotAtcmdNCONFIG (s : State) : State := Handler.nconfig.enter s
def nbiotAtcmdNSOCR (s : State) : State := Handler.nsocr.enter s
def nbiotAtcmdNSOST (s : State) : State := Handler.nsost.enter s
def nbiotAtcmdNSORF (s : State) : State := Handler.nsorf.enter s
def nbiotAtcmdNSOCL (s : State) : State := Handler.nsocl.enter s

/-- What the handlers do after a reply with `OK`. -/
def Handler.onOK (s : State) (rx : List UInt8) : Handler → State
  | .nconfig => { s with atstate := UdpState.createSocket.toInt, linkNbiot := sendToNbiot }
  | .nsocr =>
    -- the source assigns the link constant `SEND_TO_NBIOT` to `atstate`
    { s with atstate := sendToNbiot, linkNbiot := sendToNbiot, socketID := atGetSocketId rx }
  | .nsost => { s with atstate := UdpState.recvMsg.toInt, linkNbiot := sendToNbiot }
  | .nsorf => { s with atstate := UdpState.recvMsg.toInt, linkNbiot := recvFromNbiot }
  | .nsocl => { s with atstate := UdpState.idle.toInt, linkNbiot := recvFromNbiot }

/-- The end of a wait: without `OK` in the reply nothing is assigned. -/
def Handler.finish (s : State) (rx : List UInt8) (h : Handler) : State :=
  let s := { s with pc := .top, log := s.log ++ [.endWait rx] }
  if atCheckRecvData rx then h.onOK s rx else s

/-- `nbiot_atcmd_NSONMI` after its timed wait. -/
def finishNSONMI (s : State) (rx : List UInt8) : State :=
  let s := { s with pc := .top }
  if rx = [] then s
  else
    let startpos := findNSONMI rx
    if startpos = 0 then s
    else
      let r := scanSocket (rx.drop startpos) startpos 0
      { s with
        smsgSocketid := r.1
        smsgMsglen := scanLength (rx.drop (r.2.getD startpos))
        atstate := UdpState.readMsg.toInt
        linkNbiot := sendToNbiot }

/-! ## The loop -/

/-- The switch of `rt_run_example2_thread_entry`. -/
def dispatch (s : State) : State :=
  match UdpState.ofInt s.atstate with
  | some .autoConnCfg => nbiotAtcmdNCONFIG s
  | some .createSocket => nbiotAtcmdNSOCR s
  | some .sendMsg => nbiotAtcmdNSOST s
  | some .recvMsg => { s with pc := .poll 0 [] }
  | some .readMsg => nbiotAtcmdNSORF s
  | some .closeSocket => nbiotAtcmdNSOCL s
  | some .idle => s
  | none => s

/-- `rt_device_read(dev, 0, buffer + rx_size, size - rx_size)` on a device that has `chunk`. -/
def readMore (rx chunk : List UInt8) : List UInt8 := rx ++ chunk.take (readSize - rx.length)

def step (s : State) (chunk : List UInt8) : State :=
  match s.pc with
  | .top => dispatch s
  | .wait h rx =>
    if hasResult rx then h.finish s rx else { s with pc := .wait h (readMore rx chunk) }
  | .poll i rx =>
    if i < ticktimeout ∧ hasResult rx = false then
      { s with pc := .poll (i + 1) (readMore rx chunk) }
    else finishNSONMI s rx

/-- The initial state; `socketID` and `smsg` are static variables. -/
def init : State where
  atstate := UdpState.autoConnCfg.toInt
  linkNbiot := sendToNbiot
  socketID := 0
  smsgSocketid := 0
  smsgMsglen := 0
  pc := .top
  log := []

/-- The state after `n` steps of the run with the input `input`. -/
def run (input : Nat → List UInt8) : Nat → State
  | 0 => init
  | n + 1 => step (run input n) (input n)

def Handler.state : Handler → UdpState
  | .nconfig => .autoConnCfg
  | .nsocr => .createSocket
  | .nsost => .sendMsg
  | .nsorf => .readMsg
  | .nsocl => .closeSocket

/-! ## Its moves -/

structure Shape (s : State) : Prop where
  link : s.linkNbiot = sendToNbiot ∨ s.linkNbiot = recvFromNbiot
  wait : ∀ h rx, s.pc = .wait h rx → s.atstate = h.state.toInt ∧ s.linkNbiot = recvFromNbiot
  poll : ∀ i rx, s.pc = .poll i rx → s.atstate = UdpState.recvMsg.toInt

inductive Move (s : State) : State → Prop where
  /-- A command is written. -/
  | send (h : Handler) (hpc : s.pc = .top) (hst : s.atstate = h.state.toInt)
      (hl : s.linkNbiot = sendToNbiot) :
      Move s { s with linkNbiot := recvFromNbiot, log := s.log ++ [.write (h.cmd s)] }
  /-- An unbounded wait is entered. -/
  | enter (h : Handler) (hpc : s.pc = .top) (hst : s.atstate = h.state.toInt)
      (hl : s.linkNbiot = recvFromNbiot) :
      Move s { s with pc := .wait h [], log := s.log ++ [.enterWait] }
  /-- A wait goes on. -/
  | more (h : Handler) (rx rx' : List UInt8) (hpc : s.pc = .wait h rx) :
      Move s { s with pc := .wait h rx' }
  /-- A wait ends. -/
  | finish (h : Handler) (rx : List UInt8) (hpc : s.pc = .wait h rx) (hres : hasResult rx = true) :
      Move s (h.finish s rx)
  /-- The timed wait is entered, goes on or ends without a message; or there is nothing to do. -/
  | rest (pc' : Pc) (hpc : ∀ h rx, s.pc ≠ .wait h rx) (hpc' : ∀ h rx, pc' ≠ .wait h rx)
      (hpoll : ∀ i rx, pc' = .poll i rx → s.atstate = UdpState.recvMsg.toInt) :
      Move s { s with pc := pc' }
  /-- The timed wait ends with a message. -/
  | message (id len : Int) (hst : s.atstate = UdpState.recvMsg.toInt) :
      Move s { s with smsgSocketid := id, smsgMsglen := len, atstate := UdpState.readMsg.toInt,
                      linkNbiot := sendToNbiot, pc := .top }

section

variable {s s' : State}

lemma move_stay (hpc : s.pc = .top) : Move s s := by
  have hmove : Move s { s with pc := .top } := Move.rest .top (by simp [hpc]) (by simp) (by simp)
  rwa [← hpc] at hmove

lemma move_enter (sh : Shape s) (hpc : s.pc = .top) (h : Handler)
    (hst : s.atstate = h.state.toInt) : Move s (h.enter s) := by
  rw [Handler.enter]
  rcases sh.link with hl | hl
  · rw [if_pos hl]
    exact Move.send h hpc hst hl
  have hne : s.linkNbiot ≠ sendToNbiot := by rw [hl]; decide
  rw [if_neg hne, if_pos hl]
  exact Move.enter h hpc hst hl

lemma UdpState.eq_toInt_of_ofInt {v : Int} {u : UdpState} (h : UdpState.ofInt v = some u) :
    v = u.toInt := by
  unfold UdpState.ofInt at h
  split_ifs at h <;> (obtain rfl := Option.some.inj h; simpa)

lemma move_dispatch (sh : Shape s) (hpc : s.pc = .top) : Move s (dispatch s) := by
  rw [dispatch]
  cases hu : UdpState.ofInt s.atstate with
  | none => exact move_stay hpc
  | some u =>
    have hst := UdpState.eq_toInt_of_ofInt hu
    cases u with
    | autoConnCfg => exact move_enter sh hpc .nconfig hst
    | createSocket => exact move_enter sh hpc .nsocr hst
    | sendMsg => exact move_enter sh hpc .nsost hst
    | recvMsg => exact Move.rest _ (by simp [hpc]) (by simp) fun _ _ _ => hst
    | readMsg => exact move_enter sh hpc .nsorf hst
    | closeSocket => exact move_enter sh hpc .nsocl hst
    | idle => exact move_stay hpc

lemma move_finishNSONMI (sh : Shape s) {i : Nat} {rx : List UInt8} (hpc : s.pc = .poll i rx) :
    Move s (finishNSONMI s rx) := by
  have hrest : Move s { s with pc := .top } := Move.rest .top (by simp [hpc]) (by simp) (by simp)
  rw [finishNSONMI]
  simp only
  split
  · exact hrest
  split
  · exact hrest
  exact Move.message _ _ (sh.poll i rx hpc)

lemma move_step (sh : Shape s) (chunk : List UInt8) : Move s (step s chunk) := by
  rw [step]
  cases hpc : s.pc with
  | top => exact move_dispatch sh hpc
  | wait h rx =>
    by_cases hres : hasResult rx = true
    · simp only [hres]
      exact Move.finish h rx hpc hres
    simp only [hres]
    exact Move.more h rx _ hpc
  | poll i rx =>
    have hst := sh.poll i rx hpc
    simp only
    split
    · exact Move.rest _ (by simp [hpc]) (by simp) fun _ _ _ => hst
    exact move_finishNSONMI sh hpc

lemma finish_pc (h : Handler) (rx : List UInt8) : (h.finish s rx).pc = .top := by
  unfold Handler.finish
  cases h <;> split <;> rfl

lemma finish_log (h : Handler) (rx : List UInt8) :
    (h.finish s rx).log = s.log ++ [.endWait rx] := by
  unfold Handler.finish
  cases h <;> split <;> rfl

lemma shape_move (sh : Shape s) (hm : Move s s') : Shape s' := by
  cases hm with
  | send h hpc hst hl => exact ⟨.inr rfl, by simp [hpc], by simp [hpc]⟩
  | enter h hpc hst hl =>
    refine ⟨.inr hl, fun h' rx hw => ?_, fun i rx hw => by simp at hw⟩
    obtain ⟨rfl, -⟩ : h = h' ∧ [] = rx := by simpa using hw
    exact ⟨hst, hl⟩
  | more h rx rx' hpc =>
    refine ⟨sh.link, fun h' r hw => ?_, fun i r hw => by simp at hw⟩
    obtain ⟨rfl, -⟩ : h = h' ∧ rx' = r := by simpa using hw
    exact sh.wait h rx hpc
  | finish h rx hpc hres =>
    refine ⟨?_, by simp [finish_pc], by simp [finish_pc]⟩
    unfold Handler.finish
    split
    · cases h <;> simp [Handler.onOK]
    exact sh.link
  | rest pc' hpc hpc' hpoll =>
    exact ⟨sh.link, fun h rx hw => absurd hw (hpc' h rx), fun i rx hw => hpoll i rx hw⟩
  | message id len hst => exact ⟨.inl rfl, by simp, by simp⟩

lemma shape_run (input : Nat → List UInt8) (n : Nat) : Shape (run input n) := by
  induction n with
  | zero => exact ⟨.inl rfl, by simp [run, init], by simp [run, init]⟩
  | succ n ih => exact shape_move ih (move_step ih (input n))

lemma move_run (input : Nat → List UInt8) (n : Nat) : Move (run input n) (run input (n + 1)) :=
  move_step (shape_run input n) (input n)

end

end NbIot.At
