import Mathlib.Tactic

/-! # YMODEM: the data of a transfer

`_rym_do_trans` and `_rym_trans_data` of `ymodem.c`, with `_rym_read_code`, `_rym_read_data` and
`CRC16`.

* What the device gives is a list of bytes and of waits that timed out.
* `on_data` is given the payloads before this one, so that its answer can depend on what it has
  seen.
* A turn of the loop takes at least one byte or one timeout, or ends it; so the number of those is
  enough fuel.
-/

namespace NbIot.Ymodem

open List

/-! ## Codes and the CRC -/

def ccittTable : List UInt16 :=
  [0x0000, 0x1021, 0x2042, 0x3063, 0x4084, 0x50A5, 0x60C6, 0x70E7,
   0x8108, 0x9129, 0xA14A, 0xB16B, 0xC18C, 0xD1AD, 0xE1CE, 0xF1EF,
   0x1231, 0x0210, 0x3273, 0x2252, 0x52B5, 0x4294, 0x72F7, 0x62D6,
   0x9339, 0x8318, 0xB37B, 0xA35A, 0xD3BD, 0xC39C, 0xF3FF, 0xE3DE,
   0x2462, 0x3443, 0x0420, 0x1401, 0x64E6, 0x74C7, 0x44A4, 0x5485,
   0xA56A, 0xB54B, 0x8528, 0x9509, 0xE5EE, 0xF5CF, 0xC5AC, 0xD58D,
   0x3653, 0x2672, 0x1611, 0x0630, 0x76D7, 0x66F6, 0x5695, 0x46B4,
   0xB75B, 0xA77A, 0x9719, 0x8738, 0xF7DF, 0xE7FE, 0xD79D, 0xC7BC,
   0x48C4, 0x58E5, 0x6886, 0x78A7, 0x0840, 0x1861, 0x2802, 0x3823,
   0xC9CC, 0xD9ED, 0xE98E, 0xF9AF, 0x8948, 0x9969, 0xA90A, 0xB92B,
   0x5AF5, 0x4AD4, 0x7AB7, 0x6A96, 0x1A71, 0x0A50, 0x3A33, 0x2A12,
   0xDBFD, 0xCBDC, 0xFBBF, 0xEB9E, 0x9B79, 0x8B58, 0xBB3B, 0xAB1A,
   0x6CA6, 0x7C87, 0x4CE4, 0x5CC5, 0x2C22, 0x3C03, 0x0C60, 0x1C41,
   0xEDAE, 0xFD8F, 0xCDEC, 0xDDCD, 0xAD2A, 0xBD0B, 0x8D68, 0x9D49,
   0x7E97, 0x6EB6, 0x5ED5, 0x4EF4, 0x3E13, 0x2E32, 0x1E51, 0x0E70,
   0xFF9F, 0xEFBE, 0xDFDD, 0xCFFC, 0xBF1B, 0xAF3A, 0x9F59, 0x8F78,
   0x9188, 0x81A9, 0xB1CA, 0xA1EB, 0xD10C, 0xC12D, 0xF14E, 0xE16F,
   0x1080, 0x00A1, 0x30C2, 0x20E3, 0x5004, 0x4025, 0x7046, 0x6067,
   0x83B9, 0x9398, 0xA3FB, 0xB3DA, 0xC33D, 0xD31C, 0xE37F, 0xF35E,
   0x02B1, 0x1290, 0x22F3, 0x32D2, 0x4235, 0x5214, 0x6277, 0x7256,
   0xB5EA, 0xA5CB, 0x95A8, 0x8589, 0xF56E, 0xE54F, 0xD52C, 0xC50D,
   0x34E2, 0x24C3, 0x14A0, 0x0481, 0x7466, 0x6447, 0x5424, 0x4405,
   0xA7DB, 0xB7FA, 0x8799, 0x97B8, 0xE75F, 0xF77E, 0xC71D, 0xD73C,
   0x26D3, 0x36F2, 0x0691, 0x16B0, 0x6657, 0x7676, 0x4615, 0x5634,
   0xD94C, 0xC96D, 0xF90E, 0xE92F, 0x99C8, 0x89E9, 0xB98A, 0xA9AB,
   0x5844, 0x4865, 0x7806, 0x6827, 0x18C0, 0x08E1, 0x3882, 0x28A3,
   0xCB7D, 0xDB5C, 0xEB3F, 0xFB1E, 0x8BF9, 0x9BD8, 0xABBB, 0xBB9A,
   0x4A75, 0x5A54, 0x6A37, 0x7A16, 0x0AF1, 0x1AD0, 0x2AB3, 0x3A92,
   0xFD2E, 0xED0F, 0xDD6C, 0xCD4D, 0xBDAA, 0xAD8B, 0x9DE8, 0x8DC9,
   0x7C26, 0x6C07, 0x5C64, 0x4C45, 0x3CA2, 0x2C83, 0x1CE0, 0x0CC1,
   0xEF1F, 0xFF3E, 0xCF5D, 0xDF7C, 0xAF9B, 0xBFBA, 0x8FD9, 0x9FF8,
   0x6E17, 0x7E36, 0x4E55, 0x5E74, 0x2E93, 0x3EB2, 0x0ED1, 0x1EF0]

def crc16 (q : List UInt8) : UInt16 :=
  q.foldl (fun crc b =>
    (crc <<< 8) ^^^ ccittTable.getD (((crc >>> 8) ^^^ b.toUInt16) &&& 0xff).toNat 0) 0

/-! `enum rym_code`. -/

def codeNone : UInt8 := 0x00
def codeSoh : UInt8 := 0x01
def codeStx : UInt8 := 0x02
def codeEot : UInt8 := 0x04
def codeAck : UInt8 := 0x06
def codeCan : UInt8 := 0x18
def codeC : UInt8 := 0x43

/-! ## The functions of `ymodem.c` -/

/-- The numbers `RYM_ERR_CODE`, `RYM_ERR_SEQ`, `RYM_ERR_CRC`, `RYM_ERR_DSZ` and `RYM_ERR_CAN`. -/
inductive Err where
  | code | seq | crc | dsz | can
  deriving DecidableEq

inductive Stage where
  | established | transmitting
  deriving DecidableEq

/-- The fields of `struct rym_ctx` that are used, the device, and the payloads that have been handed
to `on_data`. -/
structure Ctx where
  rx : List (Option UInt8)
  tx : List UInt8
  stage : Stage
  handed : List (List UInt8)
  deriving DecidableEq

abbrev Callback := List (List UInt8) → List UInt8 → UInt8

def rymReadCode : List (Option UInt8) → UInt8 × List (Option UInt8)
  | [] => (codeNone, [])
  | none :: rx => (codeNone, rx)
  | some b :: rx => (b, rx)

/-- `_rym_read_data`: the bytes that have been read when `len` are there or a wait times out. -/
def rymReadData : Nat → List (Option UInt8) → List UInt8 × List (Option UInt8)
  | 0, rx => ([], rx)
  | _ + 1, [] => ([], [])
  | _ + 1, none :: rx => ([], rx)
  | len + 1, some b :: rx => (b :: (rymReadData len rx).1, (rymReadData len rx).2)

def rymPutchar (ctx : Ctx) (code : UInt8) : Ctx := { ctx with tx := ctx.tx ++ [code] }

/-- `recv_crc`, from two bytes. -/
def recvCrc (hi lo : UInt8) : UInt16 := (hi.toUInt16 <<< 8) ||| lo.toUInt16

/-- `_rym_trans_data` behind `_rym_read_data`; the byte `buf[i]` of the source is the byte `i - 1`
here. -/
def rymCheck (onData : Option Callback) (ctx : Ctx) (dataSz : Nat) (buf : List UInt8) :
    Except Err UInt8 × Ctx :=
  if buf.length ≠ 2 + dataSz + 2 then (.error .dsz, ctx)
  else if (buf.getD 0 0).toNat + (buf.getD 1 0).toNat ≠ 0xFF then (.error .seq, ctx)
  else if ctx.stage = .established ∧ buf.getD 0 0 = 0 then (.ok codeNone, ctx)
  else
    let ctx := { ctx with stage := .transmitting }
    let data := (buf.drop 2).take dataSz
    if recvCrc (buf.getD (2 + dataSz) 0) (buf.getD (3 + dataSz) 0) ≠ crc16 data then
      (.error .crc, ctx)
    else
      match onData with
      | some f => (.ok (f ctx.handed data), { ctx with handed := ctx.handed ++ [data] })
      | none => (.ok codeAck, ctx)

def rymTransData (onData : Option Callback) (ctx : Ctx) (dataSz : Nat) : Except Err UInt8 × Ctx :=
  let (buf, rx) := rymReadData (2 + dataSz + 2) ctx.rx
  rymCheck onData { ctx with rx := rx } dataSz buf

/-- What follows on the code from `_rym_trans_data`: `RYM_END_SESSION_SEND_CAN_NUM` times `CAN` and
the end, an `ACK`, or nothing. -/
def answer (code : UInt8) (ctx : Ctx) : Option (Except Err Unit) × Ctx :=
  if code = codeCan then (some (.error .can), (List.replicate 7 codeCan).foldl rymPutchar ctx)
  else if code = codeAck then (none, rymPutchar ctx codeAck)
  else (none, ctx)

/-- `if (err != RT_EOK) return err;`, or the answer to the code. -/
def leaveOrAnswer : Except Err UInt8 × Ctx → Option (Except Err Unit) × Ctx
  | (.error e, ctx) => (some (.error e), ctx)
  | (.ok code, ctx) => answer code ctx

/-- A turn of the loop of `_rym_do_trans`; `none` means that there is another. -/
def rymTurn (onData : Option Callback) (ctx : Ctx) : Option (Except Err Unit) × Ctx :=
  let (code, rx) := rymReadCode ctx.rx
  let ctx := { ctx with rx := rx }
  if code = codeEot then (some (.ok ()), ctx)
  else if code = codeSoh ∨ code = codeStx then
    leaveOrAnswer (rymTransData onData ctx (if code = codeSoh then 128 else 1024))
  else (some (.error .code), ctx)

def rymLoop (onData : Option Callback) : Nat → Ctx → Option (Except Err Unit) × Ctx
  | 0, ctx => (none, ctx)
  | fuel + 1, ctx =>
    match rymTurn onData ctx with
    | (some r, ctx) => (some r, ctx)
    | (none, ctx) => rymLoop onData fuel ctx

def rymDoTrans (onData : Option Callback) (ctx : Ctx) : Option (Except Err Unit) × Ctx :=
  let ctx := rymPutchar (rymPutchar ctx codeAck) codeC
  rymLoop onData (ctx.rx.length + 1) { ctx with stage := .established }

/-! ## Packets -/

structure Packet where
  seq : UInt8
  data : List UInt8
  size : data.length = 128 ∨ data.length = 1024

def Packet.bytes (p : Packet) : List UInt8 :=
  (if p.data.length = 128 then codeSoh else codeStx) :: p.seq :: (255 - p.seq) :: p.data ++
    [(crc16 p.data >>> 8).toUInt8, (crc16 p.data).toUInt8]

/-- The packets of a stream, then an `EOT` and what comes behind it. -/
def stream (ps : List Packet) (rest : List (Option UInt8)) : List (Option UInt8) :=
  (ps.flatMap Packet.bytes).map some ++ some codeEot :: rest

/-- A receiver that knows the number of the last block: it takes the next one, leaves out the last
one when it comes again, and stops at any other. It ends well or not, with the blocks it took. -/
def receive : UInt8 → List Packet → Bool × List (List UInt8)
  | _, [] => (true, [])
  | last, p :: ps =>
    if p.seq = last + 1 then ((receive p.seq ps).1, p.data :: (receive p.seq ps).2)
    else if p.seq = last then receive last ps
    else (false, [])

/-- Packets that are numbered from `last + 1` on, modulo 256. -/
def InOrder : UInt8 → List Packet → Prop
  | _, [] => True
  | last, p :: ps => p.seq = last + 1 ∧ InOrder p.seq ps

instance decidableInOrder : ∀ last ps, Decidable (InOrder last ps)
  | _, [] => isTrue trivial
  | _, p :: ps =>
    have := decidableInOrder p.seq ps
    inferInstanceAs (Decidable (_ ∧ _))

def outcome (r : Option (Except Err Unit) × Ctx) : Option Bool × List (List UInt8) :=
  (r.1.map Except.isOk, r.2.handed)

/-! ## The loop ends -/

variable {ctx : Ctx} {f : Callback} {rest : List (Option UInt8)}

section

variable {onData : Option Callback}

lemma length_rymReadData_le (len : Nat) (rx : List (Option UInt8)) :
    (rymReadData len rx).2.length ≤ rx.length := by
  induction len generalizing rx with
  | zero => exact le_rfl
  | succ len ih =>
    match rx with
    | [] => exact le_rfl
    | none :: rx => exact Nat.le_succ _
    | some b :: rx => exact (ih rx).trans (Nat.le_succ _)

lemma rx_rymCheck (dataSz : Nat) (buf : List UInt8) :
    (rymCheck onData ctx dataSz buf).2.rx = ctx.rx := by
  unfold rymCheck
  dsimp only
  split_ifs
  any_goals rfl
  cases onData <;> rfl

lemma rx_answer (code : UInt8) : (answer code ctx).2.rx = ctx.rx := by
  unfold answer
  split_ifs <;> rfl

lemma rx_leaveOrAnswer (r : Except Err UInt8 × Ctx) : (leaveOrAnswer r).2.rx = r.2.rx := by
  match r with
  | (.error e, ctx) => rfl
  | (.ok code, ctx) => exact rx_answer code

lemma rymReadCode_rx (rx : List (Option UInt8)) : (rymReadCode rx).2 = rx.tail := by
  match rx with
  | [] => rfl
  | none :: rx => rfl
  | some b :: rx => rfl

lemma length_rymTransData_le (dataSz : Nat) :
    (rymTransData onData ctx dataSz).2.rx.length ≤ ctx.rx.length := by
  show (rymCheck onData { ctx with rx := (rymReadData _ ctx.rx).2 } dataSz _).2.rx.length ≤ _
  rw [rx_rymCheck]
  exact length_rymReadData_le _ _

lemma length_rymTurn_le : (rymTurn onData ctx).2.rx.length ≤ ctx.rx.tail.length := by
  rw [← rymReadCode_rx]
  unfold rymTurn
  dsimp only
  split_ifs
  · exact le_rfl
  · rw [rx_leaveOrAnswer]
    exact length_rymTransData_le _
  · rw [rx_leaveOrAnswer]
    exact length_rymTransData_le _
  exact le_rfl

lemma rymTurn_nil (h : ctx.rx = []) :
    rymTurn onData ctx = (some (.error .code), { ctx with rx := [] }) := by
  unfold rymTurn
  rw [h]
  rfl

/-- A turn that goes on has taken something from the line. -/
lemma length_rymTurn_lt (h : (rymTurn onData ctx).1 = none) :
    (rymTurn onData ctx).2.rx.length < ctx.rx.length := by
  have hle : (rymTurn onData ctx).2.rx.length ≤ ctx.rx.tail.length := length_rymTurn_le
  have hne : ctx.rx ≠ [] := by
    intro hnil
    rw [rymTurn_nil hnil] at h
    exact absurd h (by simp)
  have hpos := length_pos_of_ne_nil hne
  rw [length_tail] at hle
  omega

lemma rymLoop_returns {fuel : Nat} (h : ctx.rx.length < fuel) :
    (rymLoop onData fuel ctx).1 ≠ none := by
  induction fuel generalizing ctx with
  | zero => omega
  | succ fuel ih =>
    rw [rymLoop]
    split
    · simp
    rename_i ctx' hturn
    have hlt : (rymTurn onData ctx).2.rx.length < ctx.rx.length :=
      length_rymTurn_lt (by rw [hturn])
    rw [hturn] at hlt
    exact ih (by simp only at hlt; omega)

/-- **`_rym_do_trans` returns**, whatever is on the line and whatever `on_data` answers: every turn
that goes on, of this or of any other transfer, has taken something from the line. -/
theorem rymDoTrans_returns (onData : Option Callback) (ctx : Ctx) :
    (rymDoTrans onData ctx).1 ≠ none ∧
      ∀ ctx', (rymTurn onData ctx').1 = none →
        (rymTurn onData ctx').2.rx.length < ctx'.rx.length :=
  ⟨rymLoop_returns (Nat.lt_succ_self _), fun _ h => length_rymTurn_lt h⟩

end

/-! ## One packet -/

lemma rymReadData_append {l : List UInt8} {len : Nat} (h : l.length = len)
    (rest : List (Option UInt8)) : rymReadData len (l.map some ++ rest) = (l, rest) := by
  induction l generalizing len with
  | nil =>
    obtain rfl : len = 0 := h.symm
    rfl
  | cons b l ih =>
    obtain ⟨len, rfl⟩ : ∃ n, len = n + 1 := ⟨l.length, h.symm⟩
    rw [map_cons, cons_append, rymReadData, ih (by simpa using h)]

lemma recvCrc_bytes (crc : UInt16) : recvCrc (crc >>> 8).toUInt8 crc.toUInt8 = crc := by
  have hlt := crc.toNat_lt
  have hhi : crc.toNat / 2 ^ 8 < 2 ^ 8 := by omega
  apply UInt16.toNat_inj.mp
  rw [recvCrc, UInt16.toNat_or, UInt16.toNat_shiftLeft]
  simp only [UInt8.toNat_toUInt16, UInt16.toNat_toUInt8, UInt16.toNat_shiftRight,
    Nat.shiftRight_eq_div_pow, Nat.shiftLeft_eq]
  calc crc.toNat / 2 ^ 8 % 2 ^ 8 * 2 ^ 8 % 2 ^ 16 ||| crc.toNat % 2 ^ 8
      = 2 ^ 8 * (crc.toNat / 2 ^ 8) ||| crc.toNat % 2 ^ 8 := by
        rw [Nat.mod_eq_of_lt hhi, Nat.mod_eq_of_lt (by omega), mul_comm]
    _ = 2 ^ 8 * (crc.toNat / 2 ^ 8) + crc.toNat % 2 ^ 8 :=
        (Nat.two_pow_add_eq_or_of_lt (Nat.mod_lt _ (by decide)) _).symm
    _ = crc.toNat := Nat.div_add_mod _ _

lemma seq_add (seq : UInt8) : seq.toNat + (255 - seq).toNat = 0xFF := by
  have hlt := seq.toNat_lt
  rw [UInt8.toNat_sub_of_le _ _ (by rw [UInt8.le_iff_toNat_le]; simp; omega)]
  simp
  omega

section

variable {p : Packet}

lemma rymTransData_packet (hrx : ctx.rx = p.bytes.tail.map some ++ rest) :
    rymTransData (some f) ctx p.data.length =
      if ctx.stage = .established ∧ p.seq = 0 then (.ok codeNone, { ctx with rx := rest })
      else (.ok (f ctx.handed p.data),
        { ctx with rx := rest, stage := .transmitting, handed := ctx.handed ++ [p.data] }) := by
  have hbytes : p.bytes.tail = p.seq :: (255 - p.seq) :: (p.data ++
      [(crc16 p.data >>> 8).toUInt8, (crc16 p.data).toUInt8]) := rfl
  have hlen : p.bytes.tail.length = 2 + p.data.length + 2 := by
    rw [hbytes]
    simp
    omega
  have hhi : p.bytes.tail.getD (2 + p.data.length) 0 = (crc16 p.data >>> 8).toUInt8 := by
    rw [getD_eq_getElem?_getD, hbytes, add_comm, getElem?_cons_succ,
      getElem?_cons_succ, getElem?_append_right (le_rfl), Nat.sub_self]
    rfl
  have hlo : p.bytes.tail.getD (3 + p.data.length) 0 = (crc16 p.data).toUInt8 := by
    rw [getD_eq_getElem?_getD, hbytes, add_comm, getElem?_cons_succ,
      getElem?_cons_succ, getElem?_append_right (Nat.le_succ _),
      Nat.succ_sub (le_rfl), Nat.sub_self]
    rfl
  have hdata : (p.bytes.tail.drop 2).take p.data.length = p.data := by
    rw [hbytes, drop_succ_cons, drop_succ_cons, drop_zero, take_left]
  have hseq : p.bytes.tail.getD 0 0 = p.seq := rfl
  have hcomp : p.bytes.tail.getD 1 0 = 255 - p.seq := rfl
  unfold rymTransData
  rw [hrx, rymReadData_append hlen]
  show rymCheck (some f) { ctx with rx := rest } p.data.length p.bytes.tail = _
  rw [rymCheck, if_neg (not_not.mpr hlen), hseq, hcomp, if_neg (not_not.mpr (seq_add p.seq)),
    hhi, hlo, hdata, recvCrc_bytes]
  simp only [ne_eq, not_true_eq_false, if_false]

def after (ctx : Ctx) (p : Packet) : Stage × List (List UInt8) :=
  if ctx.stage = .established ∧ p.seq = 0 then (ctx.stage, ctx.handed)
  else (.transmitting, ctx.handed ++ [p.data])

/-- **A packet is a turn.** If `on_data` does not cancel, the packet is taken or left out and there
is another turn. -/
theorem rymTurn_packet (hf : ∀ handed data, f handed data ≠ codeCan)
    (hrx : ctx.rx = p.bytes.map some ++ rest) :
    ∃ tx, rymTurn (some f) ctx = (none, ⟨rest, tx, (after ctx p).1, (after ctx p).2⟩) := by
  have hread : rymReadCode ctx.rx =
      (if p.data.length = 128 then codeSoh else codeStx, p.bytes.tail.map some ++ rest) := by
    rw [hrx]
    rfl
  have hcode : (if p.data.length = 128 then codeSoh else codeStx) ≠ codeEot ∧
      ((if p.data.length = 128 then codeSoh else codeStx) = codeSoh ∨
        (if p.data.length = 128 then codeSoh else codeStx) = codeStx) := by
    split
    · decide
    decide
  have hsize :
      (if (if p.data.length = 128 then codeSoh else codeStx) = codeSoh then 128 else 1024) =
        p.data.length := by
    rcases p.size with hlen | hlen
    · rw [hlen]
      decide
    rw [hlen]
    decide
  have htrans : rymTransData (some f) { ctx with rx := p.bytes.tail.map some ++ rest }
      p.data.length = _ := rymTransData_packet rfl
  unfold rymTurn
  simp only [hread, if_neg hcode.1, if_pos hcode.2, hsize, htrans]
  by_cases hrep : ctx.stage = .established ∧ p.seq = 0
  · -- the answer to `RYM_CODE_NONE` is nothing
    refine ⟨ctx.tx, ?_⟩
    simp only [if_pos hrep, after]
    rfl
  simp only [if_neg hrep, after, leaveOrAnswer, answer, if_neg (hf _ _)]
  split
  · exact ⟨_, rfl⟩
  exact ⟨_, rfl⟩

end

/-! ## A stream of packets -/

/-- The payloads that are handed over for a list of packets: before the first block, packets with
the number 0 are left out. -/
def taken : Stage → List Packet → List (List UInt8)
  | .established, ps => (ps.dropWhile (·.seq = 0)).map (·.data)
  | .transmitting, ps => ps.map (·.data)

section

variable {ps : List Packet}

lemma length_bytes_pos (p : Packet) : 0 < p.bytes.length := Nat.succ_pos _

lemma rymLoop_eot (onData : Option Callback) (fuel : Nat) (hrx : ctx.rx = some codeEot :: rest) :
    rymLoop onData (fuel + 1) ctx = (some (.ok ()), { ctx with rx := rest }) := by
  have hread : rymReadCode ctx.rx = (codeEot, rest) := by
    rw [hrx]
    rfl
  unfold rymLoop rymTurn
  simp only [hread, if_true]

/-- **The loop.** With fuel for what is on the line, a stream of packets and an `EOT` ends well, and
the payloads are handed over one after the other. -/
theorem rymLoop_stream (hf : ∀ handed data, f handed data ≠ codeCan) {fuel : Nat}
    (hfuel : ctx.rx.length < fuel) (hrx : ctx.rx = stream ps rest) :
    outcome (rymLoop (some f) fuel ctx) = (some true, ctx.handed ++ taken ctx.stage ps) := by
  induction ps generalizing ctx fuel with
  | nil =>
    obtain ⟨fuel, rfl⟩ : ∃ n, fuel = n + 1 := ⟨fuel - 1, by omega⟩
    rw [rymLoop_eot (some f) fuel hrx]
    cases ctx.stage <;> simp [outcome, taken, Except.toBool]
  | cons p ps ih =>
    obtain ⟨fuel, rfl⟩ : ∃ n, fuel = n + 1 := ⟨fuel - 1, by omega⟩
    have hcut : ctx.rx = p.bytes.map some ++ stream ps rest := by
      rw [hrx]
      simp [stream]
    obtain ⟨tx, hturn⟩ := rymTurn_packet hf hcut
    have hless : (stream ps rest).length < fuel := by
      have hpos := length_bytes_pos p
      rw [hcut, length_append, length_map] at hfuel
      omega
    rw [rymLoop, hturn]
    rw [ih hless rfl]
    unfold after
    by_cases hrep : ctx.stage = .established ∧ p.seq = 0
    · simp [hrep, taken]
    cases hstage : ctx.stage with
    | established =>
      have hseq : p.seq ≠ 0 := fun hseq => hrep ⟨hstage, hseq⟩
      simp [taken, hseq]
    | transmitting => simp [taken]

lemma rymDoTrans_stream (hf : ∀ handed data, f handed data ≠ codeCan) (tx : List UInt8)
    (stage : Stage) (ps : List Packet) (rest : List (Option UInt8)) :
    outcome (rymDoTrans (some f) ⟨stream ps rest, tx, stage, []⟩) =
      (some true, (ps.dropWhile (·.seq = 0)).map (·.data)) :=
  rymLoop_stream hf (Nat.lt_succ_self _) rfl

end

/-! ## Packets in order -/

lemma length_receive_le (last : UInt8) (ps : List Packet) :
    (receive last ps).2.length ≤ ps.length := by
  induction ps generalizing last with
  | nil => exact le_rfl
  | cons p ps ih =>
    rw [receive]
    split
    · exact Nat.succ_le_succ (ih _)
    split
    · exact (ih last).trans (Nat.le_succ _)
    exact Nat.zero_le _

lemma receive_eq_all_iff (last : UInt8) (ps : List Packet) :
    receive last ps = (true, ps.map (·.data)) ↔ InOrder last ps := by
  induction ps generalizing last with
  | nil => exact iff_of_true rfl trivial
  | cons p ps ih =>
    rw [receive, InOrder]
    by_cases hnext : p.seq = last + 1
    · rw [← ih p.seq]
      simp [hnext, Prod.ext_iff]
    rw [if_neg hnext]
    refine iff_of_false ?_ fun hboth => hnext hboth.1
    split
    · -- one packet has been left out
      intro heq
      have hle := length_receive_le last ps
      rw [heq] at hle
      simp at hle
    simp

lemma receive_dropWhile (ps : List Packet) :
    receive 0 ps = receive 0 (ps.dropWhile (·.seq = 0)) := by
  induction ps with
  | nil => rfl
  | cons p ps ih =>
    by_cases hseq : p.seq = 0
    · rw [dropWhile_cons_of_pos (by simpa using hseq), receive, if_neg (by rw [hseq]; decide),
        if_pos hseq, ih]
    rw [dropWhile_cons_of_neg (by simpa using hseq)]

/-- **A transfer.** For every stream of packets that is ended by an `EOT`, and every `on_data` that
does not cancel: `_rym_do_trans` hands over what it should, and ends as it should, exactly when the
packets behind any repetitions of packet 0 are numbered 1, 2, 3, … modulo 256. -/
theorem trans_delivers_iff (f : Callback) (hf : ∀ handed data, f handed data ≠ codeCan)
    (tx : List UInt8) (stage : Stage) (ps : List Packet) (rest : List (Option UInt8)) :
    outcome (rymDoTrans (some f) ⟨stream ps rest, tx, stage, []⟩) =
        (some (receive 0 ps).1, (receive 0 ps).2) ↔
      InOrder 0 (ps.dropWhile (·.seq = 0)) := by
  rw [rymDoTrans_stream hf, ← receive_eq_all_iff, receive_dropWhile, Prod.ext_iff, Prod.ext_iff]
  simp only [Option.some_inj]
  exact and_congr eq_comm eq_comm

def zeros (seq : UInt8) : Packet := ⟨seq, List.replicate 128 0, Or.inl (length_replicate)⟩

theorem trans_delivers_two : outcome (rymDoTrans (some fun _ _ => codeAck)
      ⟨stream [zeros 0, zeros 1, zeros 2] [], [], .established, []⟩) =
      (some true, [(zeros 1).data, (zeros 2).data]) :=
  (trans_delivers_iff (fun _ _ => codeAck) (fun _ _ => by decide) [] .established
    [zeros 0, zeros 1, zeros 2] []).mpr (by decide)

/-- A block that is sent again is handed over again; and block 3 is taken after block 1. -/
theorem trans_takes_any_number : outcome (rymDoTrans (some fun _ _ => codeAck)
      ⟨stream [zeros 1, zeros 1] [], [], .established, []⟩) =
        (some true, [(zeros 1).data, (zeros 1).data]) ∧
    receive 0 [zeros 1, zeros 1] = (true, [(zeros 1).data]) ∧
    outcome (rymDoTrans (some fun _ _ => codeAck)
      ⟨stream [zeros 1, zeros 3] [], [], .established, []⟩) =
        (some true, [(zeros 1).data, (zeros 3).data]) ∧
    receive 0 [zeros 1, zeros 3] = (false, [(zeros 1).data]) := by
  have hack : ∀ (handed : List (List UInt8)) (data : List UInt8),
      (fun _ _ => codeAck : Callback) handed data ≠ codeCan :=
    fun _ _ => (by decide : codeAck ≠ codeCan)
  exact ⟨rymDoTrans_stream hack [] .established [zeros 1, zeros 1] [], rfl,
    rymDoTrans_stream hack [] .established [zeros 1, zeros 3] [], rfl⟩

end NbIot.Ymodem
