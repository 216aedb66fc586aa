import NbIot.Dfs.Mount
import NbIot.Kservice.Strings

/-! # The file system of a path

`dfs_filesystem_lookup` of `dfs_fs.c` and `dfs_subdir` of `dfs.c`. The first finds, among the
mounted file systems, the one whose mount path is the longest that is a prefix of a path, with a
separator or the end of the path behind it; the second is the part of the path behind the mount
path.
-/

namespace NbIot.Dfs

open CString Kservice Paths List

/-! ## The two functions -/

def inMemory (text : List UInt8) (i : Nat) : UInt8 := text.getD i 0

/-- The loop of `dfs_filesystem_lookup` from the entry `i` on, with `prefixlen` and `fs`, which is
the index of an entry. -/
def lookupFrom (path : List UInt8) : List Filesystem → Nat → Nat → Option Nat → Option Nat
  | [], _, _, fs => fs
  | iter :: rest, i, prefixlen, fs =>
    match iter.path, iter.ops with
    | some p, some _ =>
      if p.length < prefixlen ∨ rtStrncmp (inMemory p) (inMemory path) p.length ≠ 0 then
        lookupFrom path rest (i + 1) prefixlen fs
      else if 1 < p.length ∧ p.length < path.length ∧ inMemory path p.length ≠ pathChars.sep then
        lookupFrom path rest (i + 1) prefixlen fs
      else lookupFrom path rest (i + 1) p.length (some i)
    | _, _ => lookupFrom path rest (i + 1) prefixlen fs

def dfsFilesystemLookup (table : List Filesystem) (path : List UInt8) : Option Nat :=
  lookupFrom path table 0 0 none

/-- `dfs_subdir`: the pointer into `filename` is the text that begins there. -/
def dfsSubdir (directory filename : List UInt8) : Except Fault (Option (List UInt8)) :=
  if directory.length = filename.length then .ok none
  else do
    let c ← read (filename ++ [0]) directory.length
    if c ≠ pathChars.sep ∧ directory.length ≠ 0 then
      pure (some (filename.drop (directory.length - 1)))
    else pure (some (filename.drop directory.length))

/-- The test of the loop, apart from `prefixlen`. -/
structure Covers (p path : List UInt8) : Prop where
  isPrefix : p <+: path
  boundary : 1 < p.length → p.length < path.length → path[p.length]? = some pathChars.sep

/-! ## The test of the loop -/

section

variable {p path : List UInt8}

lemma strncmp_eq_zero_iff (hp : NoZero p) :
    rtStrncmp (inMemory p) (inMemory path) p.length = 0 ↔ p <+: path := by
  rw [rtStrncmp_eq_zero]
  have hin : ∀ i < p.length, inMemory p i = p.getD i 0 ∧ p.getD i 0 ≠ 0 := by
    intro i hi
    refine ⟨rfl, ?_⟩
    rw [getD_eq_getElem _ _ hi]
    exact hp _ (getElem_mem hi)
  constructor
  · intro hall
    rw [prefix_iff_getElem?]
    intro i hi
    have heq := hall i hi fun l hl => (hin l (by omega)).2
    unfold inMemory at heq
    have hlt : i < path.length := by
      by_contra hge
      rw [getD_eq_default path _ (by omega)] at heq
      exact (hin i hi).2 heq
    rw [getD_eq_getElem _ _ hi, getD_eq_getElem _ _ hlt] at heq
    rw [getElem?_eq_getElem hlt, heq]
  rintro ⟨t, rfl⟩ i hi -
  unfold inMemory
  rw [getD_append _ _ _ _ hi]

lemma covers_iff_tests (hp : NoZero p) :
    Covers p path ↔ rtStrncmp (inMemory p) (inMemory path) p.length = 0 ∧
      ¬ (1 < p.length ∧ p.length < path.length ∧ inMemory path p.length ≠ pathChars.sep) := by
  rw [strncmp_eq_zero_iff hp]
  have hget : p.length < path.length →
      (path[p.length]? = some pathChars.sep ↔ inMemory path p.length = pathChars.sep) := by
    intro hlt
    unfold inMemory
    rw [getD_eq_getElem _ _ hlt, getElem?_eq_getElem hlt, Option.some_inj]
  constructor
  · rintro ⟨hpre, hb⟩
    refine ⟨hpre, ?_⟩
    rintro ⟨h1, hlt, hne⟩
    exact hne ((hget hlt).mp (hb h1 hlt))
  rintro ⟨hpre, hnot⟩
  refine ⟨hpre, fun h1 hlt => (hget hlt).mpr ?_⟩
  by_contra hne
  exact hnot ⟨h1, hlt, hne⟩

end

/-! ## Paths below a path -/

section

variable {ns ms : List (List UInt8)}

lemma names_append_sep (a b : List UInt8) :
    pathChars.names (a ++ pathChars.sep :: b) = pathChars.names a ++ pathChars.names b := by
  unfold Alphabet.names
  rw [← filter_append]
  congr 1
  exact splitOnP_append_cons a b (by simp)

lemma render_append (hns : ns ≠ []) (hms : ms ≠ []) :
    pathChars.render (ns ++ ms) = pathChars.render ns ++ pathChars.render ms := by
  rw [Alphabet.render_ne_nil hns, Alphabet.render_ne_nil hms,
    Alphabet.render_ne_nil (by simp [hns]),
    flatMap_append]

lemma length_render_pos (ns : List (List UInt8)) : 0 < (pathChars.render ns).length := by
  cases ns with
  | nil => exact Nat.zero_lt_one
  | cons n ns => simp [Alphabet.render]

lemma one_lt_length_render (hns : ∀ n ∈ ns, pathChars.Plain n) (hne : ns ≠ []) :
    1 < (pathChars.render ns).length := by
  cases ns with
  | nil => exact absurd rfl hne
  | cons n ns =>
    have hpos := length_pos_of_ne_nil (hns n mem_cons_self).ne_nil
    rw [Alphabet.render_ne_nil hne, flatMap_cons, length_append, length_cons]
    omega

lemma covers_iff (hns : ∀ n ∈ ns, pathChars.Plain n) (hms : ∀ n ∈ ms, pathChars.Plain n) :
    Covers (pathChars.render ns) (pathChars.render ms) ↔ ns <+: ms := by
  by_cases hroot : ns = []
  · subst hroot
    refine iff_of_true ⟨?_, ?_⟩ nil_prefix
    · have hhead := Alphabet.head?_render (A := pathChars) ms
      cases hr : pathChars.render ms with
      | nil => simp [hr] at hhead
      | cons c t =>
        rw [hr] at hhead
        obtain rfl : c = pathChars.sep := by simpa using hhead
        exact ⟨t, rfl⟩
    intro h1
    simp [Alphabet.render] at h1
  have h1 := one_lt_length_render hns hroot
  constructor
  · rintro ⟨⟨t, ht⟩, hb⟩
    have hnames := Alphabet.names_render hms
    rw [← ht] at hnames
    cases t with
    | nil =>
      rw [append_nil, Alphabet.names_render hns] at hnames
      rw [hnames]
    | cons c t =>
      -- the character behind the mount path is a separator
      have hc := hb h1 (by rw [← ht]; simp)
      rw [← ht] at hc
      obtain rfl : c = pathChars.sep := by simpa using hc
      rw [names_append_sep, Alphabet.names_render hns] at hnames
      exact ⟨_, hnames⟩
  rintro ⟨ks, rfl⟩
  by_cases hks : ks = []
  · subst hks
    rw [append_nil]
    exact ⟨prefix_rfl, fun _ hlt => absurd hlt (lt_irrefl _)⟩
  rw [render_append hroot hks]
  refine ⟨prefix_append _ _, fun _ _ => ?_⟩
  rw [getElem?_append_right (le_rfl), Nat.sub_self, ← head?_eq_getElem?]
  exact Alphabet.head?_render ks

lemma dfsSubdir_below (hns : ∀ n ∈ ns, pathChars.Plain n) {ks : List (List UInt8)}
    (hks : ∀ n ∈ ks, pathChars.Plain n) :
    dfsSubdir (pathChars.render ns) (pathChars.render (ns ++ ks)) =
      .ok (if ks = [] then none else some (pathChars.render ks)) := by
  by_cases hk : ks = []
  · subst hk
    rw [append_nil, dfsSubdir, if_pos rfl, if_pos rfl]
  rw [if_neg hk]
  have hpos := length_render_pos ks
  by_cases hroot : ns = []
  · subst hroot
    -- below the root the pointer goes back to the separator
    obtain ⟨k, ks, rfl⟩ := exists_cons_of_ne_nil hk
    have h1 := one_lt_length_render hks hk
    obtain ⟨c, k, rfl⟩ := exists_cons_of_ne_nil (hks k mem_cons_self).ne_nil
    have hc : c ≠ pathChars.sep := by
      rintro rfl
      exact (hks _ mem_cons_self).noSep mem_cons_self
    have hlen : (pathChars.render []).length = 1 := rfl
    have hchar : (pathChars.render ([] ++ (c :: k) :: ks) ++ [0])[
        (pathChars.render []).length]? = some c := by
      rfl
    rw [dfsSubdir, if_neg (by rw [nil_append]; omega), read_bind hchar,
      if_pos ⟨hc, by rw [hlen]; exact Nat.one_ne_zero⟩]
    rfl
  have hsep : (pathChars.render (ns ++ ks) ++ [0])[(pathChars.render ns).length]? =
      some pathChars.sep := by
    rw [render_append hroot hk, append_assoc, getElem?_append_right (le_rfl),
      Nat.sub_self, ← head?_eq_getElem?, head?_append, Alphabet.head?_render]
    rfl
  rw [dfsSubdir, if_neg, read_bind hsep]
  · rw [render_append hroot hk, drop_left]
    rfl
  rw [render_append hroot hk, length_append]
  omega

end

/-! ## The longest of them -/

/-- What the loop knows when it has seen the entries `seen`. -/
def Best (path : List UInt8) (seen : List Filesystem) (prefixlen : Nat) : Option Nat → Prop
  | none => prefixlen = 0 ∧ ∀ fs ∈ seen, ∀ p, fs.Mounted p → ¬ Covers p path
  | some i => ∃ fs p, seen[i]? = some fs ∧ fs.Mounted p ∧ Covers p path ∧ prefixlen = p.length ∧
      ∀ gs ∈ seen, ∀ q, gs.Mounted q → Covers q path → q.length ≤ p.length

section

variable {path : List UInt8} {seen rest : List Filesystem} {iter : Filesystem} {prefixlen : Nat}
  {found : Option Nat}

lemma Best.skip (h : Best path seen prefixlen found)
    (hiter : ∀ p, iter.Mounted p → Covers p path → p.length < prefixlen) :
    Best path (seen ++ [iter]) prefixlen found := by
  cases found with
  | none =>
    obtain ⟨rfl, hall⟩ := h
    refine ⟨rfl, ?_⟩
    intro fs hfs p hp hcov
    rcases mem_append.mp hfs with hfs | hfs
    · exact hall fs hfs p hp hcov
    obtain rfl := mem_singleton.mp hfs
    exact absurd (hiter p hp hcov) (Nat.not_lt_zero _)
  | some i =>
    obtain ⟨fs, p, hi, hp, hcov, rfl, hall⟩ := h
    refine ⟨fs, p, ?_, hp, hcov, rfl, ?_⟩
    · rw [getElem?_append_left (List.getElem?_eq_some_iff.mp hi).1]
      exact hi
    intro gs hgs q hq hcov'
    rcases mem_append.mp hgs with hgs | hgs
    · exact hall gs hgs q hq hcov'
    obtain rfl := mem_singleton.mp hgs
    exact (hiter q hq hcov').le

lemma Best.take (h : Best path seen prefixlen found) {p : List UInt8} (hp : iter.Mounted p)
    (hcov : Covers p path) (hle : prefixlen ≤ p.length) :
    Best path (seen ++ [iter]) p.length (some seen.length) := by
  refine ⟨iter, p, by simp, hp, hcov, rfl, ?_⟩
  intro gs hgs q hq hcov'
  rcases mem_append.mp hgs with hgs | hgs
  · cases found with
    | none => exact absurd hcov' (h.2 gs hgs q hq)
    | some i =>
      obtain ⟨fs, p', -, -, -, rfl, hall⟩ := h
      exact (hall gs hgs q hq hcov').trans hle
  obtain rfl := mem_singleton.mp hgs
  obtain rfl : p = q := Option.some.inj (hp.path.symm.trans hq.path)
  exact le_rfl

lemma lookupFrom_spec (hrest : ∀ fs ∈ rest, ∀ p, fs.Mounted p → NoZero p)
    (h : Best path seen prefixlen found) :
    ∃ n, Best path (seen ++ rest) n (lookupFrom path rest seen.length prefixlen found) := by
  induction rest generalizing seen prefixlen found with
  | nil => exact ⟨prefixlen, by rwa [append_nil]⟩
  | cons iter rest ih =>
    have ih : ∀ {n : Nat} {f : Option Nat}, Best path (seen ++ [iter]) n f →
        ∃ m, Best path (seen ++ iter :: rest) m (lookupFrom path rest (seen.length + 1) n f) := by
      intro n f hbest
      have hnext := ih (fun fs hfs => hrest fs (mem_cons_of_mem iter hfs)) hbest
      rwa [append_assoc, length_append] at hnext
    rw [lookupFrom]
    split
    · rename_i p ops hpath hops
      have hm : iter.Mounted p := ⟨hpath, by simp [hops]⟩
      have honly : ∀ q, iter.Mounted q → q = p := fun q hq =>
        Option.some.inj (hq.path.symm.trans hpath)
      have htests : Covers p path ↔ _ := covers_iff_tests (hrest iter mem_cons_self p hm)
      split
      · rename_i hskip
        refine ih (h.skip ?_)
        intro q hq hcov
        obtain rfl := honly q hq
        exact hskip.resolve_right (not_not.mpr (htests.mp hcov).1)
      rename_i hskip
      rw [not_or, not_lt, not_not] at hskip
      split
      · rename_i hsep
        refine ih (h.skip ?_)
        intro q hq hcov
        obtain rfl := honly q hq
        exact absurd hsep (htests.mp hcov).2
      rename_i hsep
      exact ih (h.take hm (htests.mpr ⟨hskip.2, hsep⟩) hskip.1)
    rename_i hnot
    refine ih (h.skip ?_)
    intro q hq _
    cases hops : iter.ops with
    | none => exact absurd hops hq.used
    | some ops => exact absurd hops (hnot q ops hq.path)

end

/-- **The mount point of a path.** In a table whose mount paths are canonical and distinct, for a
canonical path: `dfs_filesystem_lookup` returns the entry with the longest mount path whose names
are the first names of the path, or `RT_NULL` if there is none; and `dfs_subdir` is then the
canonical path of the other names, or `RT_NULL` if there are none. -/
theorem lookup_longest (table : List Filesystem) (path : List UInt8)
    (hpath : pathChars.Canonical path)
    (hmount : ∀ fs ∈ table, ∀ p, fs.Mounted p → pathChars.Canonical p ∧ NoZero p)
    (hunique : UniquePaths table) :
    match dfsFilesystemLookup table path with
    | none => ∀ fs ∈ table, ∀ p, fs.Mounted p → ¬ pathChars.names p <+: pathChars.names path
    | some i => ∃ fs p, table[i]? = some fs ∧ fs.Mounted p ∧
        pathChars.names p <+: pathChars.names path ∧
        (∀ (j : Nat) (gs : Filesystem) (q : List UInt8), table[j]? = some gs → gs.Mounted q →
          pathChars.names q <+: pathChars.names path → j ≠ i → q.length < p.length) ∧
        dfsSubdir p path = .ok (if p = path then none
          else some (pathChars.render
            ((pathChars.names path).drop (pathChars.names p).length))) := by
  obtain ⟨ms, hms, rfl⟩ := Alphabet.exists_of_canonical hpath
  -- what the loop tests is what the names say
  have hcovers : ∀ fs ∈ table, ∀ p, fs.Mounted p → (Covers p (pathChars.render ms) ↔
        pathChars.names p <+: pathChars.names (pathChars.render ms)) := by
    intro fs hfs p hp
    obtain ⟨ns, hns, rfl⟩ := Alphabet.exists_of_canonical (hmount fs hfs p hp).1
    rw [Alphabet.names_render hns, Alphabet.names_render hms]
    exact covers_iff hns hms
  have hstart : Best (pathChars.render ms) [] 0 none := ⟨rfl, by simp⟩
  obtain ⟨n, hbest⟩ := lookupFrom_spec (fun fs hfs p hp => (hmount fs hfs p hp).2) hstart
  change Best _ table n (dfsFilesystemLookup table (pathChars.render ms)) at hbest
  cases hres : dfsFilesystemLookup table (pathChars.render ms) with
  | none =>
    rw [hres] at hbest
    exact fun fs hfs p hp hpre => hbest.2 fs hfs p hp ((hcovers fs hfs p hp).mpr hpre)
  | some i =>
    rw [hres] at hbest
    obtain ⟨fs, p, hi, hp, hcov, -, hall⟩ := hbest
    have hfs := mem_of_getElem? hi
    refine ⟨fs, p, hi, hp, (hcovers fs hfs p hp).mp hcov, ?_, ?_⟩
    · intro j gs q hj hq hpre hne
      have hgs := mem_of_getElem? hj
      have hcov' := (hcovers gs hgs q hq).mpr hpre
      refine lt_of_le_of_ne (hall gs hgs q hq hcov') fun hlen => hne ?_
      -- two prefixes of one length are equal
      have heq : q = p := (prefix_of_prefix_length_le hcov'.isPrefix hcov.isPrefix
        hlen.le).eq_of_length hlen
      exact hunique j i gs fs p hj hi (heq ▸ hq) hp
    have hpre := (hcovers fs hfs p hp).mp hcov
    obtain ⟨ns, hns, rfl⟩ := Alphabet.exists_of_canonical (hmount fs hfs p hp).1
    rw [Alphabet.names_render hns, Alphabet.names_render hms] at *
    obtain ⟨ks, rfl⟩ := hpre
    have hks : ∀ k ∈ ks, pathChars.Plain k := fun k hk => hms k (by simp [hk])
    rw [dfsSubdir_below hns hks, drop_left]
    congr 1
    refine if_congr ?_ rfl rfl
    constructor
    · rintro rfl
      rw [append_nil]
    intro heq
    have hnames := congrArg pathChars.names heq
    rw [Alphabet.names_render hns, Alphabet.names_render hms] at hnames
    simpa using hnames

/-- Mounts on `/` and on `/mnt`. -/
def mntTable : List Filesystem :=
  [⟨none, some (pathChars.render []), some ramOps, 0⟩,
    ⟨none, some (pathChars.render [['m', 'n', 't'].map Char.toUInt8]), some ramOps, 0⟩]

theorem lookup_longest_mnt : ∃ fs p, mntTable[1]? = some fs ∧ fs.Mounted p ∧
      dfsFilesystemLookup mntTable (['/', 'm', 'n', 't', '/', 'a'].map Char.toUInt8) = some 1 ∧
      dfsSubdir p (['/', 'm', 'n', 't', '/', 'a'].map Char.toUInt8) =
        .ok (some (['/', 'a'].map Char.toUInt8)) := by
  have hpath : ∀ n ∈ [['m', 'n', 't'].map Char.toUInt8, ['a'].map Char.toUInt8],
      pathChars.Plain n := by
    rw [forall_mem_cons, forall_mem_singleton]
    constructor <;> exact ⟨by decide, by decide, by decide, by decide⟩
  have hmount : ∀ fs ∈ mntTable, ∀ p, fs.Mounted p → pathChars.Canonical p ∧ NoZero p := by
    rw [mntTable, forall_mem_cons, forall_mem_singleton]
    constructor <;> intro p hp <;> obtain rfl := Option.some.inj hp.path
    · exact ⟨Alphabet.canonical_render (by simp), by decide⟩
    · exact ⟨Alphabet.canonical_render (forall_mem_singleton.mpr (hpath _ mem_cons_self)),
        by decide⟩
  have hunique : UniquePaths mntTable := by
    intro i j fs gs p hi hj hfs hgs
    match i, j with
    | 0, 0 | 1, 1 => rfl
    | 0, 1 | 1, 0 =>
      cases hi
      cases hj
      exact absurd (Option.some.inj (hfs.path.trans hgs.path.symm)) (by decide)
    | i + 2, _ => simp [mntTable] at hi
    | _, j + 2 => simp [mntTable] at hj
  have hlook : dfsFilesystemLookup mntTable (['/', 'm', 'n', 't', '/', 'a'].map Char.toUInt8) =
      some 1 := by decide
  have h := lookup_longest mntTable (['/', 'm', 'n', 't', '/', 'a'].map Char.toUInt8)
    (Alphabet.canonical_render hpath) hmount hunique
  obtain ⟨fs, p, hi, hp, -, -, hsub⟩ := h
  refine ⟨fs, p, hi, hp, hlook, hsub.trans ?_⟩
  cases hi
  obtain rfl := Option.some.inj hp.path
  decide

end NbIot.Dfs
