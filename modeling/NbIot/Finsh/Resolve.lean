import NbIot.Finsh.Parser

/-! # Identifiers

An identifier is copied to an array of 16 characters, and a symbol that was appended at run time is
found by its first characters.
-/

namespace NbIot.Finsh

open List Fuel

/-! ## What an identifier should stand for -/

/-- The symbol with the name `t`: a variable, or else a system variable, or else a function. -/
def named (vars : List Var) (s : Symbols) (t : List UInt8) : Option (Id × BitVec 8) :=
  (vars.findIdx? (·.name == t)).map (.var ·, idtypeVar) <|>
  ((s.sysvarTable ++ s.sysvarList).find? (·.name == t)).map (.sysvar ·, idtypeSysvar) <|>
  ((s.syscallTable ++ s.syscallList).find? (·.name == t)).map (.syscall ·, idtypeSyscall)

/-- The names that match `t` in a table of the linker and in a list that was appended to. -/
def matching (table list : List (List UInt8)) (t : List UInt8) : List (List UInt8) :=
  table.filter (· == t) ++ list.filter (t.isPrefixOf ·)

/-- The names that an identifier of less than 16 characters matches, in the order of the lookups. -/
def candidates (vars : List Var) (s : Symbols) (t : List UInt8) : List (List UInt8) :=
  (vars.map Var.name).filter (· == t) ++
    matching (s.sysvarTable.map Sysvar.name) (s.sysvarList.map Sysvar.name) t ++
    matching (s.syscallTable.map Syscall.name) (s.syscallList.map Syscall.name) t

def Symbols.names (s : Symbols) : List (List UInt8) :=
  (s.sysvarTable ++ s.sysvarList).map Sysvar.name ++
    (s.syscallTable ++ s.syscallList).map Syscall.name

/-- A short identifier is resolved if the first name that it matches is its own. Of a longer one the
first 16 characters have to be a variable that is called so in full, or else no beginning of any
symbol. -/
def Resolvable (vars : List Var) (s : Symbols) (t : List UInt8) : Prop :=
  if t.length < finshNameMax then ∀ x, (candidates vars s t).head? = some x → x = t
  else if t.take finshNameMax ∈ vars.map Var.name then t.length = finshNameMax
  else ∀ x ∈ s.names, ¬ t.take finshNameMax <+: x

lemma findIdx?_congr {α : Type} {p q : α → Bool} {l : List α} (h : ∀ a ∈ l, p a = q a) :
    l.findIdx? p = l.findIdx? q := by
  induction l with
  | nil => rfl
  | cons a l ih =>
    rw [findIdx?_cons, findIdx?_cons, h a mem_cons_self, ih fun b hb => h b (mem_cons_of_mem _ hb)]

/-! ## Comparisons up to a length -/

section

variable {α : Type} (name : α → List UInt8) (table list : List α) (t : List UInt8)

lemma sameUpTo_eq (x : List UInt8) : sameUpTo t.length x t = t.isPrefixOf x := by
  rw [Bool.eq_iff_iff, sameUpTo, beq_iff_eq, take_length, isPrefixOf_iff_prefix,
    prefix_iff_eq_take, eq_comm]

/-- A lookup among the system variables, or among the functions. -/
lemma lookup_cases :
    let found := (table.find? fun a => name a == t) <|>
      list.find? fun a => sameUpTo t.length (name a) t
    let exact := (table ++ list).find? fun a => name a == t
    let first := (matching (table.map name) (list.map name) t).head?
    (found = none ∧ exact = none ∧ first = none) ∨
      ∃ a, found = some a ∧ first = some (name a) ∧ (name a = t → exact = some a) := by
  intro found exact first
  have hself : t.isPrefixOf t = true := isPrefixOf_iff_prefix.mpr (prefix_refl t)
  have hfirst : first = ((table.find? fun a => name a == t).map name).or
      ((list.find? fun a => t.isPrefixOf (name a)).map name) := by
    dsimp only [first, matching]
    rw [head?_append, head?_filter, head?_filter, find?_map, find?_map]
    rfl
  have hexact : exact = (table.find? fun a => name a == t).or
      (list.find? fun a => name a == t) := find?_append
  rw [hfirst, hexact]
  dsimp only [found]
  simp only [sameUpTo_eq]
  cases htable : table.find? fun a => name a == t with
  | some a => exact .inr ⟨a, rfl, rfl, fun _ => rfl⟩
  | none =>
    cases hlist : list.find? fun a => t.isPrefixOf (name a) with
    | none =>
      refine .inl ⟨rfl, find?_eq_none.mpr fun a ha heq => ?_, rfl⟩
      have hno := find?_eq_none.mp hlist a ha
      rw [beq_iff_eq.mp heq] at hno
      exact hno hself
    | some a =>
      refine .inr ⟨a, rfl, rfl, fun hname => ?_⟩
      -- whatever has the name is among what has the beginning
      obtain ⟨hpa, l₁, l₂, rfl, hbefore⟩ := find?_eq_some_iff_append.mp hlist
      refine find?_eq_some_iff_append.mpr ⟨by simp [hname], l₁, l₂, rfl, fun b hb => ?_⟩
      have hno := hbefore b hb
      by_contra heq
      obtain rfl : name b = t := by simpa using heq
      simp [hself] at hno

end

/-! ## The five lookups -/

section

variable {vars : List Var} {s : Symbols} {t : List UInt8}

lemma resolve_eq (u : List UInt8) : resolve vars s u =
    ((finshVarLookup vars u).map (.var ·, idtypeVar) <|>
      (finshSysvarLookup s u).map (.sysvar ·, idtypeSysvar) <|>
      (finshSyscallLookup s u).map (.syscall ·, idtypeSyscall)) := by
  rw [resolve]
  cases finshVarLookup vars u with
  | some i => rfl
  | none =>
    cases finshSysvarLookup s u with
    | some v => rfl
    | none => cases finshSyscallLookup s u <;> rfl

lemma find_name {α : Type} {name : α → List UInt8} {l : List α} {a : α}
    (h : l.find? (fun a => name a == t) = some a) : name a = t := by
  simpa using find?_some h

/-- A variable is in the table under the name, any other symbol has it. -/
def Id.HasName (vars : List Var) (t : List UInt8) : Id → Prop
  | .none => False
  | .var _ => t ∈ vars.map Var.name
  | .sysvar v => v.name = t
  | .syscall c => c.name = t

lemma named_hasName {id : Id} {type : BitVec 8} (h : named vars s t = some (id, type)) :
    id.HasName vars t := by
  rw [named] at h
  cases hi : vars.findIdx? (·.name == t) with
  | some i =>
    rw [hi] at h
    cases h
    obtain ⟨hlt, hname, -⟩ := findIdx?_eq_some_iff_getElem.mp hi
    exact List.mem_map.mpr ⟨_, getElem_mem hlt, by simpa using hname⟩
  | none =>
    cases hv : (s.sysvarTable ++ s.sysvarList).find? (·.name == t) with
    | some v =>
      rw [hi, hv] at h
      cases h
      exact find_name hv
    | none =>
      rw [hi, hv] at h
      obtain ⟨c, hc, heq⟩ := Option.map_eq_some_iff.mp h
      cases heq
      exact find_name hc

lemma resolve_short_iff (hvars : ∀ v ∈ vars, v.name.length ≤ finshNameMax)
    (hshort : t.length < finshNameMax) :
    resolve vars s t = named vars s t ↔ ∀ x, (candidates vars s t).head? = some x → x = t := by
  have hvar : finshVarLookup vars t = vars.findIdx? (·.name == t) := by
    refine findIdx?_congr fun v hv => ?_
    rw [sameUpTo, take_of_length_le (hvars v hv), take_of_length_le hshort.le]
  have hsysvar := lookup_cases Sysvar.name s.sysvarTable s.sysvarList t
  have hsyscall := lookup_cases Syscall.name s.syscallTable s.syscallList t
  rw [resolve_eq, hvar, candidates, head?_append, head?_append, head?_filter, find?_map]
  unfold finshSysvarLookup finshSyscallLookup
  dsimp only at hsysvar hsyscall
  cases hi : vars.findIdx? (·.name == t) with
  | some i =>
    have hsome : (vars.find? ((· == t) ∘ Var.name)).isSome := by
      rw [find?_isSome]
      obtain ⟨hlt, hname, -⟩ := findIdx?_eq_some_iff_getElem.mp hi
      exact ⟨_, getElem_mem hlt, hname⟩
    obtain ⟨v, hv⟩ := Option.isSome_iff_exists.mp hsome
    refine iff_of_true (by rw [named, hi]; rfl) fun x hx => ?_
    rw [hv] at hx
    cases hx
    exact find_name hv
  | none =>
    have hnone : vars.find? ((· == t) ∘ Var.name) = none :=
      find?_eq_none.mpr fun v hv => by simpa using findIdx?_eq_none_iff.mp hi v hv
    rw [hnone]
    rcases hsysvar with ⟨hfound, hexact, hfirst⟩ | ⟨v, hfound, hfirst, hexact⟩
    · rw [hfound, hfirst]
      rcases hsyscall with ⟨hfound, hexact', hfirst⟩ | ⟨c, hfound, hfirst, hexact'⟩
      · rw [hfound, hfirst]
        exact iff_of_true (by rw [named, hi, hexact, hexact']) (by simp)
      rw [hfound, hfirst]
      by_cases hname : c.name = t
      · exact iff_of_true (by rw [named, hi, hexact, hexact' hname]) (by simp [hname])
      exact iff_of_false (fun heq => hname (named_hasName heq.symm)) (by simpa using hname)
    rw [hfound, hfirst]
    by_cases hname : v.name = t
    · exact iff_of_true (by rw [named, hi, hexact hname]; rfl) (by simp [hname])
    exact iff_of_false (fun heq => hname (named_hasName heq.symm)) (by simpa using hname)

lemma lookup_none {α : Type} {name : α → List UInt8} {table list : List α} {u : List UInt8}
    (h : ∀ a ∈ table ++ list, ¬ u <+: name a) :
    ((table.find? fun a => name a == u) <|> list.find? fun a => sameUpTo u.length (name a) u) =
      none := by
  have htable : (table.find? fun a => name a == u) = none := find?_eq_none.mpr fun a ha heq =>
    h a (mem_append_left _ ha) (beq_iff_eq.mp heq ▸ prefix_refl _)
  rw [htable]
  refine find?_eq_none.mpr fun a ha hsame => ?_
  rw [sameUpTo_eq, isPrefixOf_iff_prefix] at hsame
  exact h a (mem_append_right _ ha) hsame

lemma resolve_none {u : List UInt8} (hvar : finshVarLookup vars u = none)
    (h : ∀ x ∈ s.names, ¬ u <+: x) : resolve vars s u = none := by
  rw [resolve_eq, hvar, finshSysvarLookup, finshSyscallLookup,
    lookup_none fun a ha => h _ (mem_append_left _ (List.mem_map_of_mem ha)),
    lookup_none fun a ha => h _ (mem_append_right _ (List.mem_map_of_mem ha))]
  rfl

lemma not_mem_of_resolve_none {u : List UInt8} (h : resolve vars s u = none) : u ∉ s.names := by
  rw [resolve_eq] at h
  simp only [Option.orElse_eq_orElse, Option.orElse_eq_or, Option.or_eq_none_iff,
    Option.map_eq_none_iff, finshSysvarLookup, finshSyscallLookup, find?_eq_none] at h
  obtain ⟨-, ⟨hvt, hvl⟩, hct, hcl⟩ := h
  simp only [sameUpTo_eq, isPrefixOf_iff_prefix] at hvl hcl
  intro hmem
  rcases mem_append.mp hmem with hmem | hmem <;>
    obtain ⟨a, ha, rfl⟩ := List.mem_map.mp hmem <;> rcases mem_append.mp ha with ha | ha
  · exact hvt a ha (beq_self_eq_true _)
  · exact hvl a ha (prefix_refl _)
  · exact hct a ha (beq_self_eq_true _)
  exact hcl a ha (prefix_refl _)

lemma named_none (hvar : t ∉ vars.map Var.name) (h : t ∉ s.names) : named vars s t = none := by
  simp only [Symbols.names, mem_append, not_or, List.mem_map, not_exists, not_and] at h hvar
  have hi : vars.findIdx? (·.name == t) = none :=
    findIdx?_eq_none_iff.mpr fun v hv => by simpa using hvar v hv
  have hv : (s.sysvarTable ++ s.sysvarList).find? (·.name == t) = none :=
    find?_eq_none.mpr fun a ha => by simpa using h.1 a (mem_append.mp ha)
  have hc : (s.syscallTable ++ s.syscallList).find? (·.name == t) = none :=
    find?_eq_none.mpr fun a ha => by simpa using h.2 a (mem_append.mp ha)
  rw [named, hi, hv, hc]
  rfl

/-- Of the copy of a long identifier only the array is compared with the names of variables. -/
lemma finshVarLookup_take (hvars : ∀ v ∈ vars, v.name.length ≤ finshNameMax)
    (hlong : finshNameMax ≤ t.length) (tail : List UInt8) :
    finshVarLookup vars (t.take finshNameMax ++ tail) =
      vars.findIdx? (·.name == t.take finshNameMax) := by
  have hlen : (t.take finshNameMax).length = finshNameMax := by rw [length_take, min_eq_left hlong]
  refine findIdx?_congr fun v hv => ?_
  rw [sameUpTo, take_of_length_le (hvars v hv), take_left' hlen]

/-- With a tail that is longer than every name nothing is found. -/
lemma exists_resolve_none {u : List UInt8} (hvar : ∀ tail, finshVarLookup vars (u ++ tail) = none)
    (hu : 0 < u.length) : ∃ tail, resolve vars s (u ++ tail) = none := by
  refine ⟨replicate s.names.flatten.length 0, resolve_none (hvar _) fun y hy hle => ?_⟩
  have h1 := hle.length_le
  have h2 := (sublist_flatten_of_mem hy).length_le
  rw [length_append, length_replicate] at h1
  omega

lemma resolve_long_iff (hvars : ∀ v ∈ vars, v.name.length ≤ finshNameMax)
    (hlong : finshNameMax ≤ t.length) :
    (∀ tail, resolve vars s (t.take finshNameMax ++ tail) = named vars s t) ↔
      if t.take finshNameMax ∈ vars.map Var.name then t.length = finshNameMax
      else ∀ x ∈ s.names, ¬ t.take finshNameMax <+: x := by
  have hlookup := finshVarLookup_take hvars hlong
  have hpos : 0 < (t.take finshNameMax).length := by
    rw [length_take, min_eq_left hlong]
    decide
  set u := t.take finshNameMax with hu
  have hfull : t ∈ vars.map Var.name → u = t ∧ t.length = finshNameMax := by
    intro hmem
    obtain ⟨v, hv, rfl⟩ := List.mem_map.mp hmem
    have hle := hvars v hv
    exact ⟨by rw [hu, take_of_length_le hle], by omega⟩
  split
  · rename_i hmem
    -- the variable is found whatever stands behind the array
    obtain ⟨i, hi⟩ : ∃ i, vars.findIdx? (·.name == u) = some i := by
      rw [← Option.isSome_iff_exists, findIdx?_isSome, any_eq_true]
      obtain ⟨v, hv, hname⟩ := List.mem_map.mp hmem
      exact ⟨v, hv, by simp [hname]⟩
    have hresolve : ∀ tail, resolve vars s (u ++ tail) = some (.var i, idtypeVar) := by
      intro tail
      rw [resolve, hlookup, hi]
    constructor
    · intro h
      have hnamed := (h []).symm.trans (hresolve [])
      exact (hfull (named_hasName hnamed)).2
    intro heq tail
    rw [hresolve, named, show t = u by rw [hu, take_of_length_le heq.le], hi]
    rfl
  rename_i hmem
  have hvar : vars.findIdx? (·.name == u) = none := findIdx?_eq_none_iff.mpr fun v hv => by
    simpa using fun hname => hmem (List.mem_map.mpr ⟨v, hv, hname⟩)
  have hnone : ∀ tail, finshVarLookup vars (u ++ tail) = none := fun tail => by rw [hlookup, hvar]
  constructor
  · -- for one tail nothing is found, so nothing has the name, and nothing is found for any tail
    intro h x hx hprefix
    obtain ⟨far, hfar⟩ := exists_resolve_none (s := s) hnone hpos
    obtain ⟨tail, rfl⟩ := hprefix
    exact not_mem_of_resolve_none ((h tail).trans ((h far).symm.trans hfar)) hx
  intro h tail
  rw [resolve_none (hnone tail) fun x hx hle =>
      h x hx ((prefix_append u tail).trans hle),
    named_none (fun hmem' => hmem ((hfull hmem').1 ▸ hmem'))
      fun hmem' => h t hmem' <| take_prefix _ _]

end

/-! ## The law -/

/-- **Identifiers.** For every content of the tables, and whatever stands behind the array with the
copy of the identifier, it is resolved to the symbol with its name, and reported if there is none,
if and only if it is resolvable. -/
theorem identifier_resolved_iff {σ η : Type} (H : Host σ η) (p : Parser σ η) (t : List UInt8)
    (hvars : ∀ v ∈ p.vars, v.name.length ≤ finshNameMax) :
    (∀ idTail, resolve p.vars H.symbols (copyId { H with idTail := idTail } t) =
          named p.vars H.symbols t ∧
        (named p.vars H.symbols t = none →
          nodeNewId H (copyId { H with idTail := idTail } t) p =
            .ok (none, { p with errno := .unknownSymbol }))) ↔
      Resolvable p.vars H.symbols t := by
  have hreport : ∀ u, resolve p.vars H.symbols u = named p.vars H.symbols t →
      named p.vars H.symbols t = none →
        nodeNewId H u p = .ok (none, { p with errno := .unknownSymbol }) := by
    intro u hu hnone
    rw [nodeNewId, bind_of_ok (show (get : Parse σ η _) p = .ok (p, p) from rfl), hu, hnone]
    rfl
  have hlaw : (∀ idTail, resolve p.vars H.symbols (copyId { H with idTail := idTail } t) =
      named p.vars H.symbols t) ↔ Resolvable p.vars H.symbols t := by
    unfold Resolvable copyId
    split
    · rw [forall_const, resolve_short_iff hvars ‹_›]
    exact resolve_long_iff hvars (not_lt.mp ‹_›)
  rw [← hlaw]
  exact ⟨fun h idTail => (h idTail).1, fun h idTail => ⟨h idTail, hreport _ (h idTail)⟩⟩

/-- `he` is in the linker's table, `hij` was appended. -/
def twoFunctions : Symbols where
  syscallTable := [⟨[0x68, 0x65], 0x100, 0x200⟩]
  syscallList := [⟨[0x68, 0x69, 0x6a], 0x300, 0x400⟩]

/-- The variable `hi` is found before the function `hij`. -/
theorem identifier_resolved_iff_variable :
    resolve [⟨[0x68, 0x69], .int⟩] twoFunctions [0x68, 0x69] = some (.var 0, idtypeVar) :=
  (((identifier_resolved_iff (Lexer.host (fun (_ : Unit) _ => none) twoFunctions [])
    ⟨⟨[], 0, false, 0, [], false⟩, (), false, .eof, none, fun _ => {}, [⟨[0x68, 0x69], .int⟩], .ok⟩
    [0x68, 0x69] (by decide)).mpr (by
      rw [Resolvable, if_pos (by decide)]
      intro x hx
      exact (Option.some.inj hx).symm)) []).1

/-- `hi` is resolved to `hij`, which has another name. -/
theorem beginning_resolved : named [] twoFunctions [0x68, 0x69] = none ∧
    resolve [] twoFunctions [0x68, 0x69] =
      some (.syscall ⟨[0x68, 0x69, 0x6a], 0x300, 0x400⟩, idtypeSyscall) := by
  decide

end NbIot.Finsh
