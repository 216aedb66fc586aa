import NbIot.At.Machine

/-! # Reading and parsing the replies of the module

The unbounded read of `AtUart3ReadTimeOut`, as the code runs it on its buffer, and what
`AtGetSocketId` and `nbiot_atcmd_NSONMI` make of the bytes.
-/

namespace NbIot.At

open List

/-! ## The tests on the buffer -/

section

variable {rx str : List UInt8}

lemma memEq_iff {i : Nat} (hi : i ≤ rx.length) (hstr : ∃ c ∈ str.getLast?, c ≠ 0) :
    memEq (rxBuffer rx) i str = true ↔ str <+: rx.drop i := by
  rw [memEq, beq_iff_eq, eq_comm, ← prefix_iff_eq_take, rxBuffer, drop_append_of_le_length hi]
  constructor
  · rintro ⟨t, ht⟩
    rcases append_eq_append_iff.mp ht with ⟨a, ha, -⟩ | ⟨z, rfl, hz⟩
    · exact ⟨a, ha.symm⟩
    -- the rest of the text would lie in the zeros
    obtain ⟨c, hc, hne⟩ := hstr
    cases hlast : z.getLast? with
    | none => simp [getLast?_eq_none_iff.mp hlast]
    | some d =>
      rw [getLast?_append, hlast] at hc
      obtain rfl : d = c := by simpa using hc
      have hmem : d ∈ z ++ t := mem_append_left t (mem_of_getLast? hlast)
      rw [← hz] at hmem
      exact absurd (eq_of_mem_replicate hmem) hne
  exact fun h => h.trans (prefix_append _ _)

lemma atStrCompare_iff (hstr : ∃ c ∈ str.getLast?, c ≠ 0) :
    atStrCompare (rxBuffer rx) rx.length str = true ↔ str <:+: rx := by
  simp only [atStrCompare, List.any_eq_true, mem_range]
  constructor
  · rintro ⟨i, hi, h⟩
    exact ((memEq_iff hi.le hstr).mp h).isInfix.trans (drop_suffix i rx).isInfix
  rintro ⟨a, b, rfl⟩
  obtain ⟨c, hc, -⟩ := id hstr
  have hpos := length_pos_of_mem (mem_of_getLast? hc)
  exact ⟨a.length, by simp; omega, (memEq_iff (by simp) hstr).mpr (by simp)⟩

lemma atCheckRecvData_iff : atCheckRecvData rx = true ↔ strOK <:+: rx :=
  atStrCompare_iff ⟨0x4b, rfl, by decide⟩

def Final (rx : List UInt8) : Prop := strERROR <:+: rx ∨ strOK <:+: rx

lemma hasResult_iff : hasResult rx = true ↔ Final rx := by
  rw [hasResult, Bool.or_eq_true, atStrCompare_iff ⟨0x52, rfl, by decide⟩,
    atStrCompare_iff ⟨0x4b, rfl, by decide⟩, Final]

instance (rx : List UInt8) : Decidable (Final rx) := decidable_of_iff _ hasResult_iff

end

/-! ## `AtUart3ReadTimeOut` -/

/-- `rt_device_read(dev, 0, buffer + rx_size, size - rx_size)` on a device that has `chunk`: the
buffer and the number of bytes read. -/
def deviceRead (buffer : List UInt8) (rxSize : Nat) (chunk : List UInt8) : List UInt8 × Nat :=
  let got := chunk.take (readSize - rxSize)
  (buffer.take rxSize ++ got ++ buffer.drop (rxSize + got.length), got.length)

def resultIn (buffer : List UInt8) (rxSize : Nat) : Bool :=
  atStrCompare buffer rxSize strERROR || atStrCompare buffer rxSize strOK

/-- The loop of `AtUart3ReadTimeOut` with the time limit `-1`, on what the reads find: the number of
reads, the buffer and the value returned, or `none` as long as it waits. -/
def atUart3ReadTimeOut (buffer : List UInt8) (rxSize : Nat) :
    List (List UInt8) → Option (Nat × List UInt8 × Nat)
  | [] => if resultIn buffer rxSize then some (0, buffer, rxSize) else none
  | chunk :: chunks =>
    if resultIn buffer rxSize then some (0, buffer, rxSize)
    else
      let r := deviceRead buffer rxSize chunk
      (atUart3ReadTimeOut r.1 (rxSize + r.2) chunks).map fun r => (r.1 + 1, r.2)

section

variable {rx : List UInt8} {chunks : List (List UInt8)}

lemma deviceRead_rxBuffer (rx chunk : List UInt8) :
    (deviceRead (rxBuffer rx) rx.length chunk).1 = rxBuffer (readMore rx chunk) ∧
      rx.length + (deviceRead (rxBuffer rx) rx.length chunk).2 = (readMore rx chunk).length := by
  refine ⟨?_, by simp [deviceRead, readMore]⟩
  simp only [deviceRead, rxBuffer, readMore, take_left', drop_append, append_assoc,
    drop_replicate, length_append]
  rw [drop_of_length_le (by omega), nil_append]
  congr 3
  omega

lemma length_readMore (hrx : rx.length ≤ readSize) (chunk : List UInt8) :
    (readMore rx chunk).length ≤ readSize := by
  simp [readMore]
  omega

lemma foldl_readMore (hrx : rx.length ≤ readSize) :
    chunks.foldl readMore rx = (rx ++ chunks.flatten).take readSize := by
  induction chunks generalizing rx with
  | nil => simp [take_of_length_le hrx]
  | cons chunk chunks ih =>
    rw [foldl_cons, ih (length_readMore hrx chunk), flatten_cons, readMore]
    simp only [take_append, take_take, append_assoc, length_take]
    congr 3
    · omega
    omega

/-- **The read ends behind the first chunk that completes a result code.** -/
theorem read_returns (rx : List UInt8) {n : Nat} (hn : n ≤ chunks.length)
    (hend : Final ((chunks.take n).foldl readMore rx))
    (hbefore : ∀ m < n, ¬ Final ((chunks.take m).foldl readMore rx)) :
    atUart3ReadTimeOut (rxBuffer rx) rx.length chunks =
      some (n, rxBuffer ((chunks.take n).foldl readMore rx),
        ((chunks.take n).foldl readMore rx).length) := by
  induction n generalizing rx chunks with
  | zero =>
    have hres : resultIn (rxBuffer rx) rx.length = true := hasResult_iff.mpr hend
    cases chunks <;> rw [atUart3ReadTimeOut, if_pos hres] <;> rfl
  | succ n ih =>
    obtain ⟨chunk, chunks, rfl⟩ := exists_cons_of_length_pos (n.succ_pos.trans_le hn)
    have hres : ¬ resultIn (rxBuffer rx) rx.length = true :=
      fun h => hbefore 0 n.succ_pos (hasResult_iff.mp h)
    obtain ⟨hbuf, hsize⟩ := deviceRead_rxBuffer rx chunk
    simp only [atUart3ReadTimeOut, if_neg hres, hbuf, hsize]
    rw [ih _ (by simpa using hn) hend fun m hm => hbefore (m + 1) (by omega)]
    rfl

lemma read_waits (rx : List UInt8)
    (h : ∀ n ≤ chunks.length, ¬ Final ((chunks.take n).foldl readMore rx)) :
    atUart3ReadTimeOut (rxBuffer rx) rx.length chunks = none := by
  have hres : ¬ resultIn (rxBuffer rx) rx.length = true :=
    fun hr => h 0 (Nat.zero_le _) (hasResult_iff.mp hr)
  induction chunks generalizing rx with
  | nil => rw [atUart3ReadTimeOut, if_neg hres]
  | cons chunk chunks ih =>
    obtain ⟨hbuf, hsize⟩ := deviceRead_rxBuffer rx chunk
    have hrest : ∀ n ≤ chunks.length,
        ¬ Final ((chunks.take n).foldl readMore (readMore rx chunk)) :=
      fun n hn => h (n + 1) (by simpa using hn)
    simp only [atUart3ReadTimeOut, if_neg hres, hbuf, hsize]
    rw [ih _ hrest fun hr => hrest 0 (Nat.zero_le _) (hasResult_iff.mp hr)]
    rfl

lemma received_eq (chunks : List (List UInt8)) :
    chunks.foldl readMore [] = chunks.flatten.take readSize :=
  foldl_readMore (Nat.zero_le _)

lemma Final.of_prefix {rx' : List UInt8} (h : Final rx) (hle : rx <+: rx') : Final rx' :=
  h.imp (·.trans hle.isInfix) (·.trans hle.isInfix)

lemma read_eq_none_iff (chunks : List (List UInt8)) :
    atUart3ReadTimeOut (rxBuffer []) 0 chunks = none ↔ ¬ Final (chunks.flatten.take readSize) := by
  constructor
  · intro hnone hfinal
    have hex : ∃ n, n ≤ chunks.length ∧ Final ((chunks.take n).foldl readMore []) :=
      ⟨chunks.length, le_rfl, by rwa [take_length, received_eq]⟩
    obtain ⟨hn, hend⟩ := Nat.find_spec hex
    have hret := read_returns [] hn hend fun m hm hf =>
      Nat.find_min hex hm ⟨hm.le.trans hn, hf⟩
    simp [hnone] at hret
  intro hfinal
  refine read_waits [] fun n _ hf => hfinal (hf.of_prefix ?_)
  rw [received_eq]
  have hle : (chunks.take n).flatten <+: chunks.flatten := by
    conv_rhs => rw [← take_append_drop n chunks, flatten_append]
    exact prefix_append _ _
  exact hle.take readSize

end

/-! ## How long it waits -/

/-- **The unbounded read.** However the reply is cut into chunks, the read returns behind the first
of them that completes a result code, with what was received up to there in the buffer, and waits
as long as there is none. `AtCheckRecvData` then looks for `OK` in just these bytes. -/
theorem read_unbounded (chunks : List (List UInt8)) (hlen : chunks.flatten.length ≤ readSize) :
    (∀ n ≤ chunks.length, Final (chunks.take n).flatten →
      (∀ m < n, ¬ Final (chunks.take m).flatten) →
      atUart3ReadTimeOut (rxBuffer []) 0 chunks =
          some (n, rxBuffer (chunks.take n).flatten, (chunks.take n).flatten.length) ∧
        (atCheckRecvData (chunks.take n).flatten = true ↔ strOK <:+: (chunks.take n).flatten)) ∧
    ((∀ n ≤ chunks.length, ¬ Final (chunks.take n).flatten) →
      atUart3ReadTimeOut (rxBuffer []) 0 chunks = none) := by
  have hall : ∀ n, (chunks.take n).foldl readMore [] = (chunks.take n).flatten := by
    intro n
    rw [received_eq, take_of_length_le]
    have hsub : (chunks.take n).flatten.length ≤ chunks.flatten.length :=
      ((take_sublist n chunks).flatten).length_le
    omega
  refine ⟨fun n hn hend hbefore => ⟨?_, atCheckRecvData_iff⟩, fun h => ?_⟩
  · have hret := read_returns [] hn (by rwa [hall]) fun m hm => by
      rw [hall]
      exact hbefore m hm
    rwa [hall] at hret
  refine read_waits [] fun n hn => ?_
  rw [hall]
  exact h n hn

theorem read_unbounded_split :
    atUart3ReadTimeOut (rxBuffer []) 0 [[0x0d, 0x0a, 0x4f], [], [0x4b, 0x0d], [0x0a]] =
      some (3, rxBuffer [0x0d, 0x0a, 0x4f, 0x4b, 0x0d], 5) :=
  ((read_unbounded _ (by decide)).1 3 (by decide) (by decide) (by decide)).1

/-- There is room for a result code behind the bytes, or for the last character of one. -/
def CanEnd (rx : List UInt8) : Prop :=
  rx.length + 2 ≤ readSize ∨ rx.length + 1 = readSize ∧ rx.getLast? = some 0x4f

lemma getLast?_of_final_concat {rx : List UInt8} {c : UInt8} (h : ¬ Final rx)
    (hc : Final (rx ++ [c])) : rx.getLast? = some 0x4f := by
  have key : ∀ (str : List UInt8) (d : UInt8), (str ++ [0x4f] ++ [d]) <:+ rx ++ [c] →
      rx.getLast? = some 0x4f := by
    rintro str d ⟨t, ht⟩
    rw [← append_assoc] at ht
    obtain ⟨rfl, -⟩ := append_inj' ht rfl
    simp
  rcases hc with hc | hc
  · rcases infix_concat_iff.mp hc with hc | hc
    · exact key [0x45, 0x52, 0x52] 0x52 hc
    exact absurd (.inl hc) h
  rcases infix_concat_iff.mp hc with hc | hc
  · exact key [] 0x4b hc
  exact absurd (.inr hc) h

/-- **When the read can still return.** After any chunks without a result code, some further input
makes it return exactly when the buffer has room for a result code, or lacks one character and ends
with `O`. A full buffer is read no more, so that nothing can happen then. -/
theorem read_alive_iff (chunks : List (List UInt8))
    (h : atUart3ReadTimeOut (rxBuffer []) 0 chunks = none) :
    (∃ more, (atUart3ReadTimeOut (rxBuffer []) 0 (chunks ++ more)).isSome = true) ↔
      CanEnd chunks.flatten := by
  have hnone := (read_eq_none_iff chunks).mp h
  have hsome : ∀ more, (atUart3ReadTimeOut (rxBuffer []) 0 (chunks ++ more)).isSome = true ↔
      Final ((chunks.flatten ++ more.flatten).take readSize) := by
    intro more
    rw [Option.isSome_iff_ne_none, ne_eq, read_eq_none_iff, not_not, flatten_append]
  simp only [hsome]
  constructor
  · rintro ⟨more, hfinal⟩
    rcases Nat.lt_trichotomy (chunks.flatten.length + 1) readSize with hlt | heq | hgt
    · exact .inl hlt
    · rw [take_of_length_le (by omega)] at hnone
      refine .inr ⟨heq, ?_⟩
      rw [take_append, take_of_length_le (by omega), ← heq, Nat.add_sub_cancel_left]
        at hfinal
      cases hmore : more.flatten with
      | nil =>
        rw [hmore] at hfinal
        exact absurd (by simpa using hfinal) hnone
      | cons c cs =>
        rw [hmore] at hfinal
        exact getLast?_of_final_concat hnone hfinal
    rw [take_append_of_le_length (by omega)] at hfinal
    exact absurd hfinal hnone
  rintro (hroom | ⟨hroom, hlast⟩)
  · refine ⟨[strOK], Or.inr ⟨chunks.flatten, [], ?_⟩⟩
    rw [take_of_length_le (by rw [length_append]; exact hroom)]
    simp
  obtain ⟨g, hg⟩ := getLast?_eq_some_iff.mp hlast
  refine ⟨[[0x4b]], Or.inr ⟨g, [], ?_⟩⟩
  rw [take_of_length_le (by rw [length_append]; exact hroom.le), hg]
  simp [strOK]

theorem read_alive_iff_start : ∃ more,
    (atUart3ReadTimeOut (rxBuffer []) 0 ([[0x4f], []] ++ more)).isSome = true :=
  (read_alive_iff [[0x4f], []] (by decide)).mpr (.inl (by decide))

/-- **A dead state**: after 256 bytes of other output no reply is ever seen. -/
theorem full_buffer_dead : readSize = 256 ∧ ¬ ∃ more,
    (atUart3ReadTimeOut (rxBuffer []) 0 (List.replicate readSize 0x2b :: more)).isSome = true := by
  refine ⟨rfl, ?_⟩
  rintro ⟨more, hsome⟩
  rw [Option.isSome_iff_ne_none, ne_eq, read_eq_none_iff, not_not, flatten_cons,
    take_left' (length_replicate)] at hsome
  obtain ⟨a, b, h⟩ | ⟨a, b, h⟩ := hsome
  all_goals
    have hmem : (0x4f : UInt8) ∈ List.replicate readSize 0x2b := by
      rw [← h]
      simp [strOK, strERROR]
    exact absurd (eq_of_mem_replicate hmem) (by decide)

/-! ## The socket of a reply -/

def decimal (ds : List UInt8) : Nat := ds.foldl (fun v ch => v * 10 + (ch.toNat - 0x30)) 0

structure Numeral (ds : List UInt8) : Prop where
  ne_nil : ds ≠ []
  digits : ∀ ch ∈ ds, isDigit ch = true
  small : decimal ds < 2 ^ 31

lemma decimal_concat (ds : List UInt8) (ch : UInt8) :
    decimal (ds ++ [ch]) = decimal ds * 10 + (ch.toNat - 0x30) := by
  simp [decimal]

lemma wrap32_small {n : Nat} (h : n < 2 ^ 31) : wrap32 n = n := by
  unfold wrap32
  rw [Int.bmod_eq_of_le] <;> omega

/-- **A scan appends the digits it meets to its start value**, modulo `2^32`. -/
theorem foldl_digits {v : Int} (hv : wrap32 v = v) (l : List UInt8) :
    l.foldl (fun v ch => if isDigit ch then addDigit v ch else v) v =
      wrap32 (v * 10 ^ (l.filter isDigit).length + decimal (l.filter isDigit)) := by
  rw [← foldl_filter]
  have hdigits : ∀ ch ∈ l.filter isDigit, isDigit ch = true := fun ch h => of_mem_filter h
  revert hdigits
  induction l.filter isDigit using List.reverseRecOn with
  | nil => simp [decimal, hv]
  | append_singleton ds ch ih =>
    intro hdigits
    have hch : 0x30 ≤ ch.toNat := by
      have := hdigits ch (by simp)
      simp only [isDigit, Bool.and_eq_true, decide_eq_true_eq] at this
      exact UInt8.le_iff_toNat_le.mp this.1
    rw [foldl_append, ih fun c hc => hdigits c (by simp [hc]), decimal_concat]
    simp only [foldl_cons, foldl_nil, addDigit, wrap32, length_append, length_singleton]
    rw [Int.bmod_mul_bmod, Int.bmod_add_bmod]
    push_cast [hch]
    congr 1
    ring

lemma wrap32_eq_iff {v : Int} {n : Nat} (hn : n < 2 ^ 31) : wrap32 v = n ↔ v % 2 ^ 32 = n := by
  simp only [wrap32, Int.bmod]
  split <;> omega

lemma filter_numeral {pre ds post : List UInt8} (hds : Numeral ds)
    (hpre : ∀ ch ∈ pre, isDigit ch = false) :
    (pre ++ ds ++ post).filter isDigit = ds ++ post.filter isDigit := by
  rw [filter_append, filter_append, filter_eq_nil_iff.mpr (by simpa using hpre),
    filter_eq_self.mpr hds.digits, nil_append]

lemma two_pow_dvd_ten_pow_iff (k : Nat) : 2 ^ 32 ∣ 10 ^ k ↔ 32 ≤ k := by
  have hcop : Nat.Coprime (2 ^ 32) (5 ^ k) := Nat.Coprime.pow _ _ (by decide)
  rw [show 10 = 2 * 5 from rfl, Nat.mul_pow, hcop.dvd_mul_right,
    Nat.pow_dvd_pow_iff_le_right (by decide)]

/-- **The socket number.** The scan starts from `AT_FAIL`, so what comes out for a reply with one
number is that number less the power of ten behind its digits. This is the number itself exactly
when it has at least 32 digits. -/
theorem socketId_iff (rx : List UInt8) (hlen : rx.length ≤ readSize) :
    (∀ pre ds post, rx = pre ++ ds ++ post → Numeral ds →
      (∀ ch ∈ pre ++ post, isDigit ch = false) → strOK <:+: rx →
      (atGetSocketId rx = decimal ds ↔ 32 ≤ ds.length)) ∧
    (¬ strOK <:+: rx → atGetSocketId rx = atFail) := by
  refine ⟨?_, fun hok => if_neg fun h => hok (atCheckRecvData_iff.mp h)⟩
  rintro pre ds post rfl hds hother hok
  have hpost : post.filter isDigit = [] :=
    filter_eq_nil_iff.mpr fun ch hch => by simp [hother ch (by simp [hch])]
  rw [atGetSocketId, if_pos (atCheckRecvData_iff.mpr hok), foldl_digits (by decide),
    filter_numeral hds fun ch hch => hother ch (by simp [hch]), hpost, append_nil,
    wrap32_eq_iff hds.small, ← two_pow_dvd_ten_pow_iff]
  have hsmall := hds.small
  have hcast : (10 : Int) ^ ds.length = ((10 ^ ds.length : Nat) : Int) := by norm_cast
  rw [atFail]
  omega

theorem socketId_iff_long : atGetSocketId (List.replicate 31 0x30 ++ [0x35] ++ strOK) = 5 := by
  have hds : Numeral (List.replicate 31 0x30 ++ [0x35]) := ⟨by decide, by simp [isDigit], by decide⟩
  exact ((socketId_iff _ (by decide)).1 [] _ strOK rfl hds (by simp [strOK, isDigit])
    (suffix_append _ _).isInfix).mpr (by decide)

/-- The reply `0`, `OK` gives the socket number `-10`. -/
theorem socketId_zero :
    atGetSocketId [0x0d, 0x0a, 0x30, 0x0d, 0x0a, 0x0d, 0x0a, 0x4f, 0x4b, 0x0d, 0x0a] = -10 := by
  decide

/-! ## The indication of a message -/

lemma memEq_NSONMI {rx : List UInt8} {i : Nat} (hi : i ≤ rx.length) :
    memEq (rxBuffer rx) i strNSONMI = true ↔ strNSONMI <+: rx.drop i :=
  memEq_iff hi ⟨0x3a, rfl, by decide⟩

lemma findNSONMI_first {pre : List UInt8} (hpre : ¬ strNSONMI <:+: pre) (tail : List UInt8) :
    findNSONMI (pre ++ strNSONMI ++ tail) = pre.length + 8 := by
  have hfind : (List.range (pre ++ strNSONMI ++ tail).length).find?
      (fun i => memEq (rxBuffer (pre ++ strNSONMI ++ tail)) i strNSONMI) = some pre.length := by
    rw [find?_range_eq_some]
    refine ⟨(memEq_NSONMI (by simp)).mpr (by simp), by simp [strNSONMI], fun j hj => ?_⟩
    rw [Bool.not_eq_eq_eq_not, Bool.not_true, Bool.eq_false_iff, ne_eq,
      memEq_NSONMI (by simp; omega)]
    rintro ⟨t, ht⟩
    rw [append_assoc, drop_append_of_le_length hj.le] at ht
    by_cases hlong : 8 ≤ pre.length - j
    · refine hpre (List.IsInfix.trans ?_ (drop_suffix j pre).isInfix)
      have hhere : strNSONMI <+: pre.drop j ++ (strNSONMI ++ tail) := ⟨t, ht⟩
      exact (prefix_of_prefix_length_le hhere (prefix_append _ _)
        (by rw [length_drop]; exact hlong)).isInfix
    have hget := congrArg (fun l => l[pre.length - j]?) ht
    simp only [getElem?_append_right (le_of_eq (length_drop ..)), length_drop] at hget
    obtain ⟨k, hk, hk8⟩ : ∃ k, pre.length - j = k + 1 ∧ k < 7 :=
      ⟨pre.length - j - 1, by omega, by omega⟩
    rw [hk] at hget
    interval_cases k <;> simp [strNSONMI] at hget
  rw [findNSONMI, hfind]

lemma scanSocket_numeral {ds : List UInt8} (hds : ∀ ch ∈ ds, isDigit ch = true)
    (rest : List UInt8) (pos : Nat) (id : Int) :
    scanSocket (ds ++ 0x2c :: rest) pos id =
      (ds.foldl (fun v ch => if isDigit ch then addDigit v ch else v) id,
        some (pos + ds.length + 1)) := by
  induction ds generalizing pos id with
  | nil => rfl
  | cons ch ds ih =>
    have hch := hds ch mem_cons_self
    have hne : ch ≠ 0x2c := by
      rintro rfl
      exact absurd hch (by decide)
    rw [cons_append, scanSocket, if_neg hne, ih fun c hc => hds c (mem_cons_of_mem _ hc)]
    simp only [foldl_cons, length_cons, Prod.mk.injEq, true_and, Option.some.injEq]
    omega

/-- `pre`, `+NSONMI:`, the socket, a comma, the length, CR and LF, and `rest`. -/
def indication (pre socket length rest : List UInt8) : List UInt8 :=
  pre ++ strNSONMI ++ (socket ++ 0x2c :: (length ++ ([0x0d, 0x0a] ++ rest)))

/-- **Message indications.** The length is read on to the end of the buffer, so the handler gets
the indication right exactly when the digits behind the line, appended to the length, do not change
it modulo `2^32`. Without an indication it changes nothing. -/
theorem indication_parsed_iff (s : State) :
    (∀ pre socket length rest, (indication pre socket length rest).length ≤ readSize →
      Numeral socket → Numeral length → ¬ strNSONMI <:+: pre →
      ((finishNSONMI s (indication pre socket length rest)).smsgSocketid = decimal socket ∧
        (finishNSONMI s (indication pre socket length rest)).smsgMsglen = decimal length ∧
        (finishNSONMI s (indication pre socket length rest)).atstate = UdpState.readMsg.toInt ↔
      decimal (length ++ rest.filter isDigit) % 2 ^ 32 = decimal length)) ∧
    ∀ rx, ¬ strNSONMI <:+: rx → finishNSONMI s rx = { s with pc := .top } := by
  constructor
  · intro pre socket length rest _ hsocket hlength hpre
    have hpos : findNSONMI (indication pre socket length rest) = pre.length + 8 :=
      findNSONMI_first hpre _
    have hdrop : ∀ n, (indication pre socket length rest).drop (pre.length + 8 + n) =
        (socket ++ 0x2c :: (length ++ ([0x0d, 0x0a] ++ rest))).drop n := fun n => by
      rw [indication, show pre.length + 8 = (pre ++ strNSONMI).length by simp [strNSONMI],
        drop_length_add_append]
    have hid := foldl_digits (v := 0) (by decide) socket
    rw [filter_eq_self.mpr hsocket.digits, zero_mul, zero_add, wrap32_small hsocket.small] at hid
    have hlen : scanLength (length ++ ([0x0d, 0x0a] ++ rest)) =
        wrap32 (decimal (length ++ rest.filter isDigit)) := by
      rw [scanLength, foldl_digits (by decide), zero_mul, zero_add, filter_append,
        filter_eq_self.mpr hlength.digits]
      rfl
    have hparse : finishNSONMI s (indication pre socket length rest) = { s with
        smsgSocketid := decimal socket
        smsgMsglen := wrap32 (decimal (length ++ rest.filter isDigit))
        atstate := UdpState.readMsg.toInt
        linkNbiot := sendToNbiot
        pc := .top } := by
      have hne : indication pre socket length rest ≠ [] := by simp [indication]
      have hsock := hdrop 0
      rw [drop_zero] at hsock
      have hlast : (indication pre socket length rest).drop (pre.length + 8 + socket.length + 1) =
          length ++ ([0x0d, 0x0a] ++ rest) := by
        rw [add_assoc _ socket.length, hdrop, drop_length_add_append]
        rfl
      simp only [finishNSONMI, if_neg hne, hpos, Nat.add_eq_zero_iff, OfNat.ofNat_ne_zero,
        and_false, if_false, hsock, scanSocket_numeral hsocket.digits, Option.getD_some, hlast,
        hlen, hid]
    rw [hparse]
    simp only [true_and, and_true, wrap32_eq_iff hlength.small]
    norm_cast
  intro rx hrx
  have hzero : findNSONMI rx = 0 := by
    have hnone :
        (List.range rx.length).find? (fun i => memEq (rxBuffer rx) i strNSONMI) = none := by
      refine find?_eq_none.mpr fun i hi h => hrx ?_
      exact ((memEq_NSONMI (mem_range.mp hi).le).mp h).isInfix.trans
        (drop_suffix i rx).isInfix
    rw [findNSONMI, hnone]
  simp [finishNSONMI, hzero]

theorem indication_parsed_iff_single :
    (finishNSONMI init (indication [] [0x30] [0x34] [])).smsgMsglen = 4 :=
  (((indication_parsed_iff init).1 [] [0x30] [0x34] [] (by decide)
    ⟨by decide, by simp [isDigit], by decide⟩ ⟨by decide, by simp [isDigit], by decide⟩
    (by decide)).mpr (by decide)).2.1

/-- A second indication, `+NSONMI:1,5`, behind `+NSONMI:0,4`: the length becomes 415. -/
theorem indication_digits_behind :
    (finishNSONMI init (indication [] [0x30] [0x34] (indication [] [0x31] [0x35] []))).smsgMsglen =
      415 := by
  decide

end NbIot.At
