import NbIot.Kservice.Strings

/-! # The password of the shell

`finsh_set_password` and `finsh_wait_auth` of `shell.c`. The keys of an attempt are stored in an
array with a cursor behind the last one. A backspace clears the byte at the cursor and then moves
the cursor back, so the byte it is to erase stays in the array until another key overwrites it.
-/

namespace NbIot.Auth

open Kservice CString Function List Option

/-! ## The password and the input -/

def finshPasswordMin : Nat := 6

/-- `FINSH_PASSWORD_MAX`, which is `RT_NAME_MAX`. -/
def finshPasswordMax : Nat := 10

def backspace : UInt8 := 0x08

/-- `finsh_set_password` with a string in the caller's memory: what it returns, and
`shell->password`. -/
def finshSetPassword (stored : Nat → UInt8) (password : List UInt8) : Int × (Nat → UInt8) :=
  if password.length < finshPasswordMin ∨ finshPasswordMax < password.length then (-1, stored)
  else (0, rtStrncpy stored (fun i => password.getD i 0) finshPasswordMax)

/-- The local variables `password` and `cur_pos` of `finsh_wait_auth`. -/
structure Input where
  password : Nat → UInt8
  curPos : Nat

/-- `char password[FINSH_PASSWORD_MAX] = { 0 }` and `cur_pos = 0`. -/
def Input.fresh : Input := ⟨fun _ => 0, 0⟩

/-- A key before the end of the line. `none` is a write behind the end of the array. -/
def Input.key (a : Input) (ch : UInt8) : Option Input :=
  if Printable ch ∧ a.curPos < finshPasswordMax then
    some ⟨update a.password a.curPos ch, a.curPos + 1⟩
  else if ch = backspace ∧ 0 < a.curPos then
    if a.curPos < finshPasswordMax then
      some ⟨update a.password a.curPos 0, a.curPos - 1⟩
    else none
  else some a

def Input.keys (a : Input) : List UInt8 → Option Input
  | [] => some a
  | ch :: chs => (a.key ch).bind fun a' => a'.keys chs

def Input.clear (a : Input) : Input :=
  ⟨blit a.password 0 finshPasswordMax fun _ => 0, 0⟩

/-- `finsh_wait_auth` from the beginning of an attempt on. Each item is what one attempt reads up to
the key that ends it; what is read and dropped between two attempts is left out. The result tells
for each attempt whether it was accepted. -/
def finshWaitAuth (stored : Nat → UInt8) : Input → List (List UInt8) → Option (List Bool)
  | _, [] => some []
  | a, chs :: rest =>
    (a.keys chs).bind fun a' =>
      if rtStrncmp stored a'.password finshPasswordMax = 0 then some [true]
      else (finshWaitAuth stored a'.clear rest).map (false :: ·)

/-! ## What is typed -/

/-- The text that the keys make, and the character that the last of them has erased, if it has
erased one. -/
structure Edited where
  text : List UInt8
  erased : Option UInt8
  deriving DecidableEq

def Edited.key (e : Edited) (ch : UInt8) : Edited :=
  if ch = backspace then
    match e.text.getLast? with
    | none => e
    | some c => ⟨e.text.dropLast, some c⟩
  else ⟨e.text ++ [ch], none⟩

def edited (chs : List UInt8) : Edited := chs.foldl Edited.key ⟨[], none⟩

def Key (ch : UInt8) : Prop := Printable ch ∨ ch = backspace
  deriving Decidable

def InArray : Edited → List UInt8 → Prop
  | _, [] => True
  | e, ch :: chs =>
    (ch = backspace → e.text.length < finshPasswordMax) ∧ InArray (e.key ch) chs

instance decidableInArray : (e : Edited) → (chs : List UInt8) → Decidable (InArray e chs)
  | _, [] => isTrue trivial
  | e, ch :: chs =>
    have := decidableInArray (e.key ch) chs
    inferInstanceAs (Decidable ((_ → _) ∧ _))

/-- The last key has erased nothing, or the text is the password neither with the erased character
nor without it. -/
def Settled (pw : List UInt8) (e : Edited) : Prop :=
  ∀ c ∈ e.erased, e.text ≠ pw ∧ e.text ++ [c] ≠ pw

instance (pw : List UInt8) (e : Edited) : Decidable (Settled pw e) :=
  Option.decidableForallMem e.erased

structure Typed (a : Input) (e : Edited) : Prop where
  array : Padded finshPasswordMax a.password (e.text ++ e.erased.toList)
  curPos : a.curPos = min finshPasswordMax e.text.length
  noZero : NoZero (e.text ++ e.erased.toList)

lemma typed_fresh : Typed .fresh ⟨[], none⟩ := ⟨padded_nil _, rfl, by simp [NoZero]⟩

lemma ne_backspace {ch : UInt8} (h : Printable ch) : ch ≠ backspace := by
  rintro rfl
  exact absurd h (by decide)

/-! ## The input holds what is typed -/

section

variable {a : Input} {e : Edited} {ch : UInt8}

lemma length_toList_le (o : Option UInt8) : o.toList.length ≤ 1 := by cases o <;> simp

lemma typed_char (h : Typed a e) (hch : Printable ch) :
    ∃ a', a.key ch = some a' ∧ Typed a' (e.key ch) := by
  have hkey : e.key ch = ⟨e.text ++ [ch], none⟩ := if_neg (ne_backspace hch)
  have hnz : NoZero (e.text ++ [ch]) := forall_mem_append.mpr
    ⟨(forall_mem_append.mp h.noZero).1, forall_mem_singleton.mpr hch.ne_zero⟩
  have hcur := h.curPos
  rw [hkey]
  by_cases hfull : a.curPos < finshPasswordMax
  · have hlen : a.curPos = e.text.length := by omega
    refine ⟨_, if_pos ⟨hch, hfull⟩, ?_, ?_, by simpa using hnz⟩
    · rw [hlen]
      simpa using padded_overwrite h.array (length_toList_le e.erased) ch
    simp only [length_append, length_singleton]
    omega
  refine ⟨a, ?_, ?_, ?_, by simpa using hnz⟩
  · rw [Input.key, if_neg (fun hc => hfull hc.2), if_neg (fun hc => ne_backspace hch hc.1)]
  · have hsame : Padded finshPasswordMax a.password (e.text ++ [ch]) :=
      padded_of_le h.array (by omega)
    simpa using hsame
  simp only [length_append]
  omega

lemma typed_backspace (h : Typed a e) (hlen : e.text.length < finshPasswordMax) :
    ∃ a', a.key backspace = some a' ∧ Typed a' (e.key backspace) := by
  have hcur : a.curPos = e.text.length := by
    have := h.curPos
    omega
  have hnp : ¬ (Printable backspace ∧ a.curPos < finshPasswordMax) :=
    fun hc => absurd hc.1 (by decide)
  rcases eq_nil_or_concat' e.text with hnil | ⟨init, c, htext⟩
  · have hkey : e.key backspace = e := by simp [Edited.key, hnil]
    rw [hkey]
    refine ⟨a, ?_, h⟩
    have hzero : ¬ (backspace = backspace ∧ 0 < a.curPos) := by
      rw [hcur, hnil]
      simp
    rw [Input.key, if_neg hnp, if_neg hzero]
  have hkey : e.key backspace = ⟨init, some c⟩ := by simp [Edited.key, htext]
  have hpos : backspace = backspace ∧ 0 < a.curPos := by
    rw [hcur, htext]
    simp
  rw [hkey]
  refine ⟨⟨update a.password a.curPos 0, a.curPos - 1⟩, ?_, ?_, ?_, ?_⟩
  · rw [Input.key, if_neg hnp, if_pos hpos, if_pos (by omega)]
  · rw [hcur]
    have hclear := padded_clear h.array (length_toList_le e.erased)
    rwa [htext] at hclear ⊢
  · rw [htext, length_append, length_singleton] at hcur hlen
    show a.curPos - 1 = min finshPasswordMax init.length
    omega
  intro x hx
  refine h.noZero x (mem_append_left _ ?_)
  rw [htext]
  exact hx

lemma key_backspace_full (h : Typed a e) (hlen : finshPasswordMax ≤ e.text.length) :
    a.key backspace = none := by
  have hcur : a.curPos = finshPasswordMax := by
    have := h.curPos
    omega
  have hpos : backspace = backspace ∧ 0 < a.curPos := by
    rw [hcur]
    decide
  rw [Input.key, if_neg (fun hc => absurd hc.1 (by decide)), if_pos hpos, if_neg (by omega)]

lemma typed_keys {chs : List UInt8} (h : Typed a e) (hkeys : ∀ ch ∈ chs, Key ch) :
    (InArray e chs ∧ ∃ a', a.keys chs = some a' ∧ Typed a' (chs.foldl Edited.key e)) ∨
      (¬ InArray e chs ∧ a.keys chs = none) := by
  induction chs generalizing a e with
  | nil => exact .inl ⟨trivial, a, rfl, h⟩
  | cons ch chs ih =>
    have hrest : ∀ c ∈ chs, Key c := fun c hc => hkeys c (mem_cons_of_mem _ hc)
    have hnext : ∀ a', a.key ch = some a' → Typed a' (e.key ch) →
        (ch = backspace → e.text.length < finshPasswordMax) →
        (InArray e (ch :: chs) ∧ ∃ b, a.keys (ch :: chs) = some b ∧
          Typed b ((ch :: chs).foldl Edited.key e)) ∨
        (¬ InArray e (ch :: chs) ∧ a.keys (ch :: chs) = none) := by
      intro a' ha' ht hin
      have hstep : a.keys (ch :: chs) = a'.keys chs := by rw [Input.keys, ha', bind_some]
      rw [hstep]
      rcases ih ht hrest with ⟨hok, b, hb, htb⟩ | ⟨hbad, hnone⟩
      · exact .inl ⟨⟨hin, hok⟩, b, hb, htb⟩
      exact .inr ⟨fun hc => hbad hc.2, hnone⟩
    rcases hkeys ch mem_cons_self with hch | rfl
    · obtain ⟨a', ha', ht⟩ := typed_char h hch
      exact hnext a' ha' ht fun hb => absurd hb (ne_backspace hch)
    by_cases hlen : e.text.length < finshPasswordMax
    · obtain ⟨a', ha', ht⟩ := typed_backspace h hlen
      exact hnext a' ha' ht fun _ => hlen
    right
    refine ⟨fun hc => hlen (hc.1 rfl), ?_⟩
    rw [Input.keys, key_backspace_full h (by omega), bind_none]

end

/-! ## The comparison -/

lemma stored_padded {pw : List UInt8} (hmin : finshPasswordMin ≤ pw.length)
    (hmax : pw.length ≤ finshPasswordMax) (hpw : ∀ c ∈ pw, Printable c) (stored : Nat → UInt8) :
    (finshSetPassword stored pw).1 = 0 ∧
      Padded finshPasswordMax (finshSetPassword stored pw).2 pw := by
  have hok : ¬ (pw.length < finshPasswordMin ∨ finshPasswordMax < pw.length) := by omega
  rw [finshSetPassword, if_neg hok]
  exact ⟨rfl, rtStrncpy_padded (fun c hc => (hpw c hc).ne_zero) (fun _ => rfl) _ _⟩

lemma strncmp_padded {n : Nat} {cs ct : Nat → UInt8} {pw text : List UInt8}
    (hcs : Padded n cs pw) (hct : Padded n ct text) (hpw : NoZero pw) (htext : NoZero text)
    (hlen : pw.length < n) : rtStrncmp cs ct n = 0 ↔ text = pw := by
  rw [rtStrncmp_eq_zero]
  constructor
  · intro h
    have hbefore : ∀ j ≤ pw.length, pw.getD j 0 = text.getD j 0 := by
      intro j hj
      rw [← hcs j (by omega), ← hct j (by omega)]
      refine h j (by omega) fun l hl => ?_
      rw [hcs l (by omega), getD_eq_getElem _ _ (by omega)]
      exact hpw _ (getElem_mem _)
    -- the zero behind the password ends the other text as well
    have hle : text.length ≤ pw.length := by
      by_contra hgt
      have hz := hbefore pw.length (le_rfl)
      rw [getD_eq_default _ _ (le_rfl), getD_eq_getElem _ _ (by omega)] at hz
      exact htext _ (getElem_mem _) hz.symm
    have hge : pw.length ≤ text.length := by
      by_contra hlt
      have hz := hbefore text.length (by omega)
      rw [getD_eq_default text _ (le_rfl), getD_eq_getElem _ _ (by omega)] at hz
      exact hpw _ (getElem_mem _) hz
    refine ext_getElem (by omega) fun i hi hi' => ?_
    have := hbefore i (by omega)
    rw [getD_eq_getElem _ _ hi, getD_eq_getElem _ _ hi'] at this
    exact this.symm
  rintro rfl j hj _
  rw [hcs j hj, hct j hj]

lemma typed_clear (a : Input) : Typed a.clear ⟨[], none⟩ := by
  refine ⟨?_, rfl, by simp [NoZero]⟩
  intro i hi
  show blit a.password 0 finshPasswordMax (fun _ => 0) i = 0
  rw [blit, if_pos (by omega)]

/-! ## Attempts -/

/-- What the comparison makes of an attempt: it takes the character erased last for one of the
text. -/
def accepts (pw chs : List UInt8) : Bool :=
  decide ((edited chs).text ++ (edited chs).erased.toList = pw)

section

variable {stored : Nat → UInt8} {pw chs : List UInt8} {a : Input}

lemma finshWaitAuth_cons (hst : Padded finshPasswordMax stored pw) (hnz : NoZero pw)
    (hlen : pw.length < finshPasswordMax) (h : Typed a ⟨[], none⟩) (hkeys : ∀ ch ∈ chs, Key ch) :
    (InArray ⟨[], none⟩ chs ∧ ∃ a', Typed a' ⟨[], none⟩ ∧ ∀ rest,
      finshWaitAuth stored a (chs :: rest) = if accepts pw chs then some [true]
        else (finshWaitAuth stored a' rest).map (false :: ·)) ∨
    (¬ InArray ⟨[], none⟩ chs ∧ ∀ rest, finshWaitAuth stored a (chs :: rest) = none) := by
  rcases typed_keys h hkeys with ⟨hin, a', ha', ht⟩ | ⟨hout, hnone⟩
  · refine .inl ⟨hin, a'.clear, typed_clear a', fun rest => ?_⟩
    have hcmp : rtStrncmp stored a'.password finshPasswordMax = 0 ↔ accepts pw chs = true := by
      rw [strncmp_padded hst ht.array hnz ht.noZero hlen, accepts, decide_eq_true_eq]
      rfl
    rw [finshWaitAuth, ha']
    exact if_congr hcmp rfl rfl
  refine .inr ⟨hout, fun rest => ?_⟩
  rw [finshWaitAuth, hnone, bind_none]

lemma finshWaitAuth_append (hst : Padded finshPasswordMax stored pw) (hnz : NoZero pw)
    (hlen : pw.length < finshPasswordMax) {earlier : List (List UInt8)}
    (hkeys : ∀ chs ∈ earlier, ∀ ch ∈ chs, Key ch) (h : Typed a ⟨[], none⟩)
    (hfail : finshWaitAuth stored a earlier = some (List.replicate earlier.length false)) :
    ∃ a', Typed a' ⟨[], none⟩ ∧ ∀ rest, finshWaitAuth stored a (earlier ++ rest) =
      (finshWaitAuth stored a' rest).map (List.replicate earlier.length false ++ ·) := by
  induction earlier generalizing a with
  | nil => exact ⟨a, h, by simp⟩
  | cons chs earlier ih =>
    have hrest : ∀ c ∈ earlier, ∀ ch ∈ c, Key ch := fun c hc => hkeys c (mem_cons_of_mem _ hc)
    rcases finshWaitAuth_cons hst hnz hlen h (hkeys chs mem_cons_self) with
      ⟨-, a', ht, hstep⟩ | ⟨-, hnone⟩
    · have hrej : accepts pw chs = false := by
        cases hacc : accepts pw chs with
        | false => rfl
        | true => simp [hstep, hacc, replicate_succ] at hfail
      rw [hstep, hrej] at hfail
      obtain ⟨bs, hbs, hcons⟩ := map_eq_some_iff.mp hfail
      rw [(List.cons.inj hcons).2] at hbs
      obtain ⟨b, hb, happ⟩ := ih hrest ht hbs
      refine ⟨b, hb, fun rest => ?_⟩
      rw [cons_append, hstep, hrej, happ]
      simp [replicate_succ, comp_def]
    rw [hnone] at hfail
    simp at hfail

lemma finshWaitAuth_last (hst : Padded finshPasswordMax stored pw) (hnz : NoZero pw)
    (hlen : pw.length < finshPasswordMax) (h : Typed a ⟨[], none⟩) (hkeys : ∀ ch ∈ chs, Key ch) :
    finshWaitAuth stored a [chs] =
      if InArray ⟨[], none⟩ chs then some [accepts pw chs] else none := by
  rcases finshWaitAuth_cons hst hnz hlen h hkeys with ⟨hin, a', -, hstep⟩ | ⟨hout, hnone⟩
  · rw [hstep, if_pos hin]
    cases accepts pw chs <;> rfl
  rw [hnone, if_neg hout]

end

lemma accepts_iff (pw chs : List UInt8) :
    (accepts pw chs = true ↔ (edited chs).text = pw) ↔ Settled pw (edited chs) := by
  rw [accepts, decide_eq_true_eq, Settled]
  cases (edited chs).erased with
  | none => simp
  | some c =>
    have hne : ¬ ((edited chs).text = pw ∧ (edited chs).text ++ [c] = pw) := by
      rintro ⟨h1, h2⟩
      have := congrArg List.length (h1.trans h2.symm)
      simp at this
    simp only [mem_def, Option.some.injEq, forall_eq']
    tauto

/-- **Authentication.** For every password of `FINSH_PASSWORD_MIN` to `FINSH_PASSWORD_MAX - 1`
printable characters, every attempt of printable characters and backspaces, and whatever attempts
have failed before it: the attempt ends as if it were the first one, and it is accepted exactly if
the edited text is the password if and only if no backspace meets a full array and the text is
settled. -/
theorem auth_exact_iff (memory : Nat → UInt8) (pw chs : List UInt8) (earlier : List (List UInt8))
    (hmin : finshPasswordMin ≤ pw.length) (hmax : pw.length ≤ finshPasswordMax - 1)
    (hpw : ∀ c ∈ pw, Printable c) (hearlier : ∀ c ∈ earlier, ∀ ch ∈ c, Key ch)
    (hchs : ∀ ch ∈ chs, Key ch)
    (hfail : finshWaitAuth (finshSetPassword memory pw).2 .fresh earlier =
      some (List.replicate earlier.length false)) :
    (finshWaitAuth (finshSetPassword memory pw).2 .fresh (earlier ++ [chs]) =
      (finshWaitAuth (finshSetPassword memory pw).2 .fresh [chs]).map
        (List.replicate earlier.length false ++ ·)) ∧
    ((∃ accepted : Bool, finshWaitAuth (finshSetPassword memory pw).2 .fresh (earlier ++ [chs]) =
        some (List.replicate earlier.length false ++ [accepted]) ∧
        (accepted = true ↔ (edited chs).text = pw)) ↔
      InArray ⟨[], none⟩ chs ∧ Settled pw (edited chs)) := by
  have hlen : pw.length < finshPasswordMax := by
    have : finshPasswordMax = 10 := rfl
    omega
  have hnz : NoZero pw := fun c hc => (hpw c hc).ne_zero
  have hst := (stored_padded hmin hlen.le hpw memory).2
  obtain ⟨a, ha, happ⟩ := finshWaitAuth_append hst hnz hlen hearlier typed_fresh hfail
  have hlast := finshWaitAuth_last hst hnz hlen ha hchs
  have hfirst := finshWaitAuth_last hst hnz hlen typed_fresh hchs
  rw [happ, hlast, hfirst]
  rw [← accepts_iff]
  by_cases hin : InArray ⟨[], none⟩ chs
  · simp [hin]
  simp [hin]

/-- `"rtthread"`, the default password. -/
def defaultPassword : List UInt8 := [0x72, 0x74, 0x74, 0x68, 0x72, 0x65, 0x61, 0x64]

theorem auth_exact_iff_corrected :
    finshWaitAuth (finshSetPassword (fun _ => 0) defaultPassword).2 .fresh
        ([[0x72, 0x74]] ++ [[0x72, 0x74, 0x74, 0x68, 0x72, 0x65, 0x61, 0x78, backspace, 0x64]]) =
      some ([false] ++ [true]) := by
  have hiff := (auth_exact_iff (fun _ => 0) defaultPassword
    [0x72, 0x74, 0x74, 0x68, 0x72, 0x65, 0x61, 0x78, backspace, 0x64] [[0x72, 0x74]]
    (by decide) (by decide) (by simp [defaultPassword, Printable]) (by simp [Key, Printable])
    (by simp [Key, Printable]) (by decide)).2
  obtain ⟨b, hb, hacc⟩ := hiff.mpr (by decide)
  rw [hacc.mpr (by decide)] at hb
  exact hb

/-- The password with its last character erased is accepted, and the password behind which a
character was typed and erased is not. -/
theorem erased_character_compared :
    finshWaitAuth (finshSetPassword (fun _ => 0) defaultPassword).2 .fresh
        [defaultPassword ++ [backspace]] = some [true] ∧
      (edited (defaultPassword ++ [backspace])).text ≠ defaultPassword ∧
      finshWaitAuth (finshSetPassword (fun _ => 0) defaultPassword).2 .fresh
        [defaultPassword ++ [0x78, backspace]] = some [false] ∧
      (edited (defaultPassword ++ [0x78, backspace])).text = defaultPassword := by
  decide

end NbIot.Auth
