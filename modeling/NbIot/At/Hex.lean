import NbIot.Basic.CString

/-! # Hex texts

`AtStr2Hex` clears as many bytes as the text needs and puts the digits into them one by one, each
into its half of a byte, until it meets a character that is no digit.

What it leaves is said in halves of bytes (`nibble`): the values of the digits at the start of the
text, and zeros behind them (`nibble_decode`). Everything else follows from this and from the bytes
it leaves alone.
-/

namespace NbIot.At

open CString Function List

/-! ## `AtStr2Hex` -/

/-- A string whose length is an `int`. -/
structure CStr where
  chars : List UInt8
  noZero : NoZero chars
  short : chars.length < 2 ^ 31

/-- The value of a digit, `val`. -/
def hexVal (tmp : UInt8) : Option UInt8 :=
  if 0x30 ≤ tmp ∧ tmp ≤ 0x39 then some (tmp - 0x30)
  else if 0x41 ≤ tmp ∧ tmp ≤ 0x46 then some (tmp - 0x41 + 10)
  else none

/-- The loop of `AtStr2Hex` from the index `i` on: the bytes at `dest` and the value returned. -/
def decode : List UInt8 → Nat → (Nat → UInt8) → (Nat → UInt8) × Int
  | [], _, dest => (dest, 0)
  | tmp :: src, i, dest =>
    match hexVal tmp with
    | none => (dest, -3)
    | some val =>
      decode src (i + 1)
        (update dest (i / 2) (dest (i / 2) ||| if i % 2 = 0 then val <<< 4 else val))

def destLen (srcLen : Nat) : Nat := if srcLen % 2 ≠ 0 then srcLen / 2 + 1 else srcLen / 2

/-- `AtStr2Hex`; `none` is a null pointer. -/
def atStr2Hex (src : Option CStr) (dest : Option (Nat → UInt8)) : Option (Nat → UInt8) × Int :=
  match src, dest with
  | some src, some dest =>
    if src.chars.length < 1 then (some dest, -2)
    else
      let cleared := fun k => if k < destLen src.chars.length then 0 else dest k
      let r := decode src.chars 0 cleared
      (some r.1, r.2)
  | _, dest => (dest, -1)

/-- The high half of a byte comes first. -/
def nibble (dest : Nat → UInt8) (n : Nat) : Nat :=
  if n % 2 = 0 then (dest (n / 2)).toNat / 16 else (dest (n / 2)).toNat % 16

/-! ## Digits of a list of bytes -/

def digits : List UInt8 → List Nat
  | [] => []
  | c :: cs =>
    match hexVal c with
    | none => []
    | some v => v.toNat :: digits cs

variable {c b val : UInt8} {dest : Nat → UInt8}

lemma hexVal_lt {v : UInt8} (h : hexVal c = some v) : v.toNat < 16 := by
  unfold hexVal at h
  split_ifs at h with hc hc <;> cases h <;> simp [UInt8.le_iff_toNat_le] at hc <;>
    simp [UInt8.toNat_sub] <;> omega

lemma nibble_even (dest : Nat → UInt8) (k : Nat) : nibble dest (2 * k) = (dest k).toNat / 16 := by
  rw [nibble, if_pos (Nat.mul_mod_right 2 k), Nat.mul_div_cancel_left k Nat.two_pos]

lemma nibble_odd (dest : Nat → UInt8) (k : Nat) :
    nibble dest (2 * k + 1) = (dest k).toNat % 16 := by
  rw [nibble, if_neg (by omega), show (2 * k + 1) / 2 = k by omega]

lemma eq_of_halves {a : UInt8} (h0 : a.toNat / 16 = b.toNat / 16)
    (h1 : a.toNat % 16 = b.toNat % 16) : a = b := by
  apply UInt8.toNat_inj.mp
  omega

lemma toNat_or_high (hb : b.toNat < 16) (hval : val.toNat < 16) :
    (b ||| val <<< 4).toNat = val.toNat * 16 + b.toNat := by
  have hsum := Nat.shiftLeft_add_eq_or_of_lt (i := 4) hb val.toNat
  have hshift : (val <<< 4).toNat = val.toNat <<< 4 := by
    rw [UInt8.toNat_shiftLeft, Nat.mod_eq_of_lt]
    · rfl
    show val.toNat <<< 4 < 2 ^ 8
    omega
  rw [UInt8.toNat_or, hshift, Nat.or_comm, ← hsum, Nat.shiftLeft_eq]

lemma toNat_or_low (hb : b.toNat % 16 = 0) (hval : val.toNat < 16) :
    (b ||| val).toNat = b.toNat + val.toNat := by
  have hsum := Nat.shiftLeft_add_eq_or_of_lt (i := 4) hval (b.toNat / 16)
  have hb' : (b.toNat / 16) <<< 4 = b.toNat := by
    omega
  rw [hb'] at hsum
  rw [UInt8.toNat_or, hsum]

lemma nibble_put {i : Nat} (hval : val.toNat < 16) (hzero : nibble dest i = 0) (n : Nat) :
    nibble (update dest (i / 2) (dest (i / 2) ||| if i % 2 = 0 then val <<< 4 else val)) n =
      if n = i then val.toNat else nibble dest n := by
  by_cases hbyte : n / 2 = i / 2
  · unfold nibble at *
    rw [hbyte, update_self]
    by_cases hi : i % 2 = 0
    · rw [if_pos hi] at hzero ⊢
      rw [toNat_or_high (by omega) hval]
      split_ifs <;> omega
    rw [if_neg hi] at hzero ⊢
    rw [toNat_or_low hzero hval]
    split_ifs <;> omega
  have hne : n ≠ i := by
    rintro rfl
    exact hbyte rfl
  rw [if_neg hne, nibble, nibble, update_of_ne hbyte]

lemma nibble_decode (src : List UInt8) {i N : Nat} (hlen : src.length ≤ N)
    (hzero : ∀ n < N, nibble dest (i + n) = 0) :
    (∀ n < i, nibble (decode src i dest).1 n = nibble dest n) ∧
      ∀ n < N, nibble (decode src i dest).1 (i + n) = (digits src).getD n 0 := by
  induction src generalizing i N dest with
  | nil => exact ⟨fun _ _ => rfl, hzero⟩
  | cons c src ih =>
    cases hc : hexVal c with
    | none =>
      rw [decode, digits, hc]
      exact ⟨fun _ _ => rfl, hzero⟩
    | some v =>
      obtain ⟨N, rfl⟩ : ∃ j, N = j + 1 := ⟨N - 1, by simp at hlen; omega⟩
      have hput := nibble_put (hexVal_lt hc) (hzero 0 N.succ_pos)
      simp only [decode, digits, hc]
      obtain ⟨hfront, hbehind⟩ := ih (i := i + 1) (by simpa using hlen) fun n hn => by
        rw [add_right_comm, hput, if_neg (by omega)]
        exact hzero (n + 1) (by omega)
      refine ⟨fun n hn => ?_, fun n hn => ?_⟩
      · exact (hfront n (by omega)).trans ((hput n).trans (if_neg (by omega)))
      cases n with
      | zero => exact (hfront i (Nat.lt_succ_self i)).trans ((hput i).trans (if_pos rfl))
      | succ n =>
        rw [← add_assoc, add_right_comm]
        exact hbehind n (by omega)

lemma decode_of_le (src : List UInt8) {i : Nat} {k : Nat}
    (hk : i + src.length ≤ 2 * k) : (decode src i dest).1 k = dest k := by
  induction src generalizing i dest with
  | nil => rfl
  | cons c src ih =>
    rw [length_cons] at hk
    unfold decode
    cases hexVal c with
    | none => rfl
    | some v =>
      rw [ih (by omega), update_of_ne (by omega)]

/-! ## Hexadecimal texts -/

/-- The characters from `0` to `9` and from `A` to `F`. -/
def IsHex (c : UInt8) : Prop := 0x30 ≤ c ∧ c ≤ 0x39 ∨ 0x41 ≤ c ∧ c ≤ 0x46
  deriving Decidable

lemma hexVal_eq_none_iff : hexVal c = none ↔ ¬ IsHex c := by
  unfold hexVal IsHex
  split_ifs <;> simp [*]

lemma decode_code (src : List UInt8) (i : Nat) (dest : Nat → UInt8) :
    (decode src i dest).2 = if src.all (IsHex ·) then 0 else -3 := by
  induction src generalizing i dest with
  | nil => simp [decode]
  | cons c src ih =>
    unfold decode
    cases hc : hexVal c with
    | none => simp [hexVal_eq_none_iff.mp hc]
    | some v =>
      have hhex : IsHex c := by
        by_contra hnot
        simp [hexVal_eq_none_iff.mpr hnot] at hc
      rw [ih]
      simp [hhex]

def encode (bytes : List UInt8) : List UInt8 :=
  bytes.flatMap fun b => [hexDigit (b.toNat / 16), hexDigit (b.toNat % 16)]
where
  hexDigit (n : Nat) : UInt8 := if n < 10 then 0x30 + .ofNat n else 0x41 + .ofNat (n - 10)

lemma hexVal_hexDigit {n : Nat} (hn : n < 16) : hexVal (encode.hexDigit n) = some (.ofNat n) := by
  interval_cases n <;> rfl

lemma digits_encode (bytes : List UInt8) :
    digits (encode bytes) = bytes.flatMap fun b => [b.toNat / 16, b.toNat % 16] := by
  induction bytes with
  | nil => rfl
  | cons b bytes ih =>
    have hb := b.toNat_lt
    have hcons : encode (b :: bytes) = encode.hexDigit (b.toNat / 16) ::
      encode.hexDigit (b.toNat % 16) :: encode bytes := rfl
    have hnat : ∀ {n : Nat}, n < 16 → (UInt8.ofNat n).toNat = n := fun {n} hn => by
      rw [UInt8.toNat_ofNat', Nat.mod_eq_of_lt (by omega)]
    simp only [hcons, digits, hexVal_hexDigit (show b.toNat / 16 < 16 by omega),
      hexVal_hexDigit (Nat.mod_lt _ (show 16 > 0 by decide)), ih]
    rw [hnat (by omega), hnat (by omega)]
    rfl

lemma getD_halves (bytes : List UInt8) {k : Nat} (hk : k < bytes.length) :
    (bytes.flatMap fun b => [b.toNat / 16, b.toNat % 16]).getD (2 * k) 0 = bytes[k].toNat / 16 ∧
      (bytes.flatMap fun b => [b.toNat / 16, b.toNat % 16]).getD (2 * k + 1) 0 =
        bytes[k].toNat % 16 := by
  induction bytes generalizing k with
  | nil => simp at hk
  | cons b bytes ih =>
    cases k with
    | zero => exact ⟨rfl, rfl⟩
    | succ k => exact ih (by simpa using hk)

/-! ## The whole function -/

lemma digits_append_zero (cs : List UInt8) (n : Nat) :
    (digits (cs ++ [0x30])).getD n 0 = (digits cs).getD n 0 := by
  induction cs generalizing n with
  | nil => cases n <;> rfl
  | cons c cs ih =>
    rw [cons_append, digits, digits]
    cases hexVal c with
    | none => rfl
    | some v =>
      cases n with
      | zero => rfl
      | succ n => exact ih n

lemma digits_stop {pre post : List UInt8} (hc : ¬ IsHex c) :
    digits (pre ++ c :: post) = digits pre := by
  induction pre with
  | nil => simp [digits, hexVal_eq_none_iff.mpr hc]
  | cons d pre ih =>
    rw [cons_append, digits, digits, ih]

lemma destLen_eq (n : Nat) : destLen n = (n + 1) / 2 := by
  unfold destLen
  split <;> omega

lemma atStr2Hex_spec (src : CStr) (hne : src.chars ≠ []) (dest : Nat → UInt8) :
    ∃ dest', atStr2Hex (some src) (some dest) =
        (some dest', if src.chars.all (IsHex ·) then 0 else -3) ∧
      (∀ n < 2 * destLen src.chars.length, nibble dest' n = (digits src.chars).getD n 0) ∧
      ∀ k, destLen src.chars.length ≤ k → dest' k = dest k := by
  have hpos := length_pos_of_ne_nil hne
  have hlen : src.chars.length ≤ 2 * destLen src.chars.length := by
    rw [destLen_eq]
    omega
  have hrun : atStr2Hex (some src) (some dest) = _ := if_neg (by omega)
  rw [hrun, decode_code]
  refine ⟨_, rfl, fun n hn => ?_, fun k hk => ?_⟩
  · have hzero : ∀ n < 2 * destLen src.chars.length,
        nibble (fun k => if k < destLen src.chars.length then 0 else dest k) (0 + n) = 0 := by
      intro n hn
      simp only [nibble, if_pos (show (0 + n) / 2 < destLen src.chars.length by omega)]
      split <;> rfl
    have hhalves := (nibble_decode src.chars hlen hzero).2 n hn
    rwa [zero_add] at hhalves
  rw [decode_of_le _ (by omega), if_neg (by omega)]

/-- **Hex texts.** `AtStr2Hex` accepts exactly the non-empty texts of digits, undoes the encoding of
bytes, reads a text of odd length as if it had a `0` at its end, writes only the bytes that the text
needs, and leaves zeros behind the digits in front of a character that it does not accept. -/
theorem hex_decoding (src : CStr) (dest : Nat → UInt8) :
    ∃ dest' code, atStr2Hex (some src) (some dest) = (some dest', code) ∧
      (code = 0 ↔ src.chars ≠ [] ∧ ∀ c ∈ src.chars, IsHex c) ∧
      (∀ bytes, src.chars = encode bytes → block dest' bytes.length = bytes) ∧
      (∀ src' : CStr, src'.chars = src.chars ++ [0x30] → src.chars.length % 2 = 1 →
        atStr2Hex (some src') (some dest) = (some dest', code)) ∧
      (∀ k, (src.chars.length + 1) / 2 ≤ k → dest' k = dest k) ∧
      ∀ pre c post, src.chars = pre ++ c :: post → (∀ d ∈ pre, IsHex d) → ¬ IsHex c → code = -3 ∧
          ∀ n < 2 * ((src.chars.length + 1) / 2), nibble dest' n = (digits pre).getD n 0 := by
  by_cases hne : src.chars = []
  · refine ⟨dest, -2, by simp [atStr2Hex, hne], by simp [hne], ?_, ?_, fun _ _ => rfl, ?_⟩
    · intro bytes hbytes
      cases bytes with
      | nil => rfl
      | cons b bytes => simp [hne, encode] at hbytes
    · simp [hne]
    simp [hne]
  obtain ⟨dest', hrun, hhalves, hframe⟩ := atStr2Hex_spec src hne dest
  rw [destLen_eq] at hhalves hframe
  refine ⟨dest', _, hrun, ?_, ?_, ?_, hframe, ?_⟩
  · simp [hne]
  · intro bytes hbytes
    have hlen : (encode bytes).length = 2 * bytes.length := by
      simp [encode, mul_comm]
    rw [hbytes] at hhalves
    simp only [digits_encode] at hhalves
    refine ext_getElem (by simp) fun k hk hk' => ?_
    obtain ⟨h₀, h₁⟩ := getD_halves bytes hk'
    rw [← hhalves _ (by omega), nibble_even] at h₀
    rw [← hhalves _ (by omega), nibble_odd] at h₁
    simpa [block] using eq_of_halves h₀ h₁
  · intro src' hsrc' hodd
    obtain ⟨dest'', hrun', hhalves', hframe'⟩ := atStr2Hex_spec src' (by simp [hsrc']) dest
    have hsize : (src'.chars.length + 1) / 2 = (src.chars.length + 1) / 2 := by
      rw [hsrc', length_append, length_singleton]
      omega
    rw [destLen_eq, hsize] at hhalves' hframe'
    have hcode : src'.chars.all (IsHex ·) = src.chars.all (IsHex ·) := by
      rw [hsrc']
      simp [IsHex]
    have hdest : dest'' = dest' := by
      funext k
      by_cases hk : (src.chars.length + 1) / 2 ≤ k
      · rw [hframe k hk, hframe' k hk]
      have heq : ∀ n < 2 * ((src.chars.length + 1) / 2), nibble dest'' n = nibble dest' n :=
        fun n hn => by rw [hhalves n hn, hhalves' n hn, hsrc', digits_append_zero]
      have h₀ := heq (2 * k) (by omega)
      have h₁ := heq (2 * k + 1) (by omega)
      rw [nibble_even, nibble_even] at h₀
      rw [nibble_odd, nibble_odd] at h₁
      exact eq_of_halves h₀ h₁
    rw [hrun', hdest]
    simp only [hcode]
  intro pre c post hsrc _ hc
  rw [hsrc, digits_stop hc] at hhalves
  refine ⟨if_neg fun hall => hc ?_, fun n hn => hhalves n ?_⟩
  · simpa using List.all_eq_true.mp hall c (by simp [hsrc])
  rwa [hsrc] at hn

end NbIot.At
