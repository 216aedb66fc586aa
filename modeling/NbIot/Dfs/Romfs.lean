import NbIot.Dfs.Lookup

/-! # The ROM file system

`dfs_romfs_lookup` of `dfs_romfs.c` walks over the path and the tree at the same time, with one pair
of cursors for the path and one variable for the size of the directory. It is the descent by the
names of the path, one after the other.
-/

namespace NbIot.Romfs

open CString Kservice Paths List Dfs

/-! ## The tree and the walk -/

/-- `struct romfs_dirent` of one of the two types that `check_dirent` admits. The size of a
directory is the number of its entries. -/
inductive Dirent where
  | file (name : List UInt8) (size : Nat)
  | dir (name : List UInt8) (size : Nat) (data : List Dirent)

def Dirent.name : Dirent → List UInt8
  | .file name _ | .dir name _ _ => name

def Dirent.size : Dirent → Nat
  | .file _ size | .dir _ size _ => size

def checkDirent (d : Dirent) : Bool := d.size != 0xffffffff

/-- From `subpath_end` on: what is between the next `subpath` and `subpath_end`, and the rest. -/
def nextSubpath (path : List UInt8) : List UInt8 × List UInt8 :=
  (path.dropWhile (· = pathChars.sep)).span (· ≠ pathChars.sep)

/-- The loop over the entries of a directory, up to the one with the name. -/
def search (subpath : List UInt8) : List Dirent → Option Dirent
  | [] => none
  | d :: ds =>
    if !checkDirent d then none
    else if d.name.length = subpath.length ∧
        rtStrncmp (inMemory d.name) (inMemory subpath) subpath.length = 0 then some d
    else search subpath ds

/-- The loop over the levels, with `dirent` and `dirent_size`. -/
def walk : Nat → List Dirent → Nat → List UInt8 → List UInt8 → Option (Dirent × Nat)
  | 0, _, _, _, _ => none
  | n + 1, dirent, direntSize, subpath, rest =>
    match search subpath (dirent.take direntSize) with
    | none => none
    | some d =>
      if (nextSubpath rest).1 = [] then some (d, d.size)
      else
        match d with
        | .dir _ size data => walk n data size (nextSubpath rest).1 (nextSubpath rest).2
        -- a file that is not the end of the path
        | .file .. => none

/-- The result, with what is stored in `size`. The root is the directory with the given fields;
every turn of the loop takes a name from the path. -/
def dfsRomfsLookup (name : List UInt8) (size : Nat) (data : List Dirent) (path : List UInt8) :
    Option (Dirent × Nat) :=
  if !checkDirent (.dir name size data) then none
  else if path = [pathChars.sep] then some (.dir name size data, size)
  else walk path.length data size (nextSubpath path).1 (nextSubpath path).2

/-! ## The descent -/

/-- The entry to which the names lead. -/
def Dirent.descend : Dirent → List (List UInt8) → Option Dirent
  | d, [] => some d
  | .file .., _ :: _ => none
  | .dir _ _ data, n :: ns => (data.find? (·.name = n)).bind (·.descend ns)

inductive WellFormed : Dirent → Prop
  | file {name : List UInt8} {size : Nat} (hname : NoZero name) (hsize : size ≠ 0xffffffff) :
    WellFormed (.file name size)
  | dir {name : List UInt8} {data : List Dirent} (hname : NoZero name)
    (hsize : data.length ≠ 0xffffffff) (hdata : ∀ d ∈ data, WellFormed d) :
    WellFormed (.dir name data.length data)

variable {n name : List UInt8} {ns : List (List UInt8)} {data : List Dirent} {d : Dirent} {k : Nat}

lemma WellFormed.check (h : WellFormed d) : checkDirent d = true := by
  cases h with
  | file _ hsize | dir _ hsize => simpa [checkDirent, Dirent.size] using hsize

lemma WellFormed.noZero (h : WellFormed d) : NoZero d.name := by
  cases h with
  | file hname | dir hname => exact hname

lemma WellFormed.entries {size : Nat} (h : WellFormed (.dir name size data)) :
    size = data.length ∧ ∀ d ∈ data, WellFormed d := by
  cases h with
  | dir _ _ hdata => exact ⟨rfl, hdata⟩

/-- The comparison of lengths and of so many bytes is equality. -/
lemma matches_iff (h : NoZero name) : name.length = n.length ∧
    rtStrncmp (inMemory name) (inMemory n) n.length = 0 ↔ name = n := by
  constructor
  · rintro ⟨hlen, heq⟩
    rw [← hlen, strncmp_eq_zero_iff h] at heq
    exact heq.eq_of_length hlen
  · rintro rfl
    exact ⟨rfl, (strncmp_eq_zero_iff h).mpr (prefix_refl _)⟩

lemma search_eq (h : ∀ d ∈ data, WellFormed d) : search n data = data.find? (·.name = n) := by
  induction data with
  | nil => rfl
  | cons d ds ih =>
    obtain ⟨hd, hds⟩ := forall_mem_cons.mp h
    simp only [search, hd.check, Bool.not_true, Bool.false_eq_true, if_false,
      matches_iff hd.noZero, ih hds, find?_cons]
    by_cases hn : d.name = n
    · simp [hn]
    simp [hn]

lemma nextSubpath_eq (h : pathChars.Plain n) (ns : List (List UInt8)) :
    nextSubpath ((n :: ns).flatMap (pathChars.sep :: ·)) =
      (n, ns.flatMap (pathChars.sep :: ·)) := by
  have hn : ∀ c ∈ n, decide (c ≠ pathChars.sep) = true := fun c hc => by
    simpa using ne_of_mem_of_not_mem hc h.noSep
  have hdrop : ∀ r, (n ++ r).dropWhile (· = pathChars.sep) = n ++ r := fun r => by
    cases n with
    | nil => exact absurd rfl h.ne_nil
    | cons c n => exact dropWhile_cons_of_neg (by simpa using hn c mem_cons_self)
  rw [nextSubpath, flatMap_cons, cons_append, dropWhile_cons_of_pos (by simp), hdrop,
    span_eq_takeWhile_dropWhile, takeWhile_append_of_pos hn, dropWhile_append_of_pos hn]
  cases ns <;> simp

/-- The loop from a directory on, by induction on the names that are left. -/
lemma walk_eq (hdata : ∀ d ∈ data, WellFormed d) (hns : ∀ m ∈ ns, pathChars.Plain m)
    (hk : ns.length < k) :
    walk k data data.length n (ns.flatMap (pathChars.sep :: ·)) =
      ((Dirent.dir name data.length data).descend (n :: ns)).map fun d => (d, d.size) := by
  obtain ⟨k, rfl⟩ : ∃ l, k = l + 1 := ⟨k - 1, by omega⟩
  induction ns generalizing k data n name with
  | nil =>
    rw [walk, take_length, search_eq hdata, Dirent.descend]
    cases data.find? (·.name = n) <;> rfl
  | cons m ns ih =>
    obtain ⟨hm, hns⟩ := forall_mem_cons.mp hns
    rw [walk, take_length, search_eq hdata, Dirent.descend, nextSubpath_eq hm]
    cases hfind : data.find? (·.name = n) with
    | none => rfl
    | some d =>
      dsimp only [Option.bind_some]
      rw [if_neg hm.ne_nil]
      have hd := hdata d (mem_of_find?_eq_some hfind)
      cases d with
      | file => rfl
      | dir name' size data' =>
        obtain ⟨rfl, hdata'⟩ := hd.entries
        obtain ⟨k, rfl⟩ : ∃ l, k = l + 1 := ⟨k - 1, by simp at hk; omega⟩
        exact ih hdata' hns k (by simp at hk; omega)

lemma length_le_flatMap (ns : List (List UInt8)) :
    ns.length ≤ (ns.flatMap (pathChars.sep :: ·)).length := by
  induction ns with
  | nil => simp
  | cons n ns ih =>
    simp only [flatMap_cons, length_append, length_cons]
    omega

/-- **Lookup** of a canonical path in a well-formed tree: the entry to which the names of the path
lead, with its size, and nothing if they lead nowhere. -/
theorem lookup_eq_descend (name : List UInt8) (size : Nat) (data : List Dirent) (path : List UInt8)
    (hroot : WellFormed (.dir name size data)) (hpath : pathChars.Canonical path) :
    dfsRomfsLookup name size data path =
      ((Dirent.dir name size data).descend (pathChars.names path)).map fun d => (d, d.size) := by
  obtain ⟨ns, hns, rfl⟩ := Alphabet.exists_of_canonical hpath
  rw [Alphabet.names_render hns, dfsRomfsLookup, hroot.check]
  obtain ⟨rfl, hdata⟩ := hroot.entries
  cases ns with
  | nil => rfl
  | cons n ns =>
    have hne : pathChars.render (n :: ns) ≠ [pathChars.sep] := fun h => by
      simpa using Alphabet.render_inj (fun m hm => (hns m hm).ne_nil) h
    obtain ⟨hn, hns⟩ := forall_mem_cons.mp hns
    rw [if_neg (by simp), if_neg hne, Alphabet.render, nextSubpath_eq hn]
    exact walk_eq hdata hns (length_le_flatMap (n :: ns))

/-- The files `a` and `d/a`. -/
def twoFiles : List Dirent := [.file [0x61] 7, .dir [0x64] 1 [.file [0x61] 9]]

lemma wellFormed_twoFiles : WellFormed (.dir [] 2 twoFiles) := by
  have hd : WellFormed (.dir [0x64] 1 [.file [0x61] 9]) :=
    .dir (by decide) (by decide) (forall_mem_singleton.mpr (.file (by decide) (by decide)))
  exact .dir (by decide) (by decide)
    (forall_mem_cons.mpr ⟨.file (by decide) (by decide), forall_mem_singleton.mpr hd⟩)

/-- `/d/a` is the file in the directory, and `/a/a` nothing. -/
theorem lookup_eq_descend_twoFiles :
    dfsRomfsLookup [] 2 twoFiles [0x2f, 0x64, 0x2f, 0x61] = some (.file [0x61] 9, 9) ∧
      dfsRomfsLookup [] 2 twoFiles [0x2f, 0x61, 0x2f, 0x61] = none :=
  ⟨lookup_eq_descend _ _ _ _ wellFormed_twoFiles ⟨rfl, by decide, by decide⟩,
    lookup_eq_descend _ _ _ _ wellFormed_twoFiles ⟨rfl, by decide, by decide⟩⟩

end NbIot.Romfs
