import NbIot.Basic.Run
import NbIot.Dfs.Normalize

/-! # The RAM file system: names

`dfs_ramfs_lookup`, `dfs_ramfs_open`, `dfs_ramfs_unlink` and `dfs_ramfs_rename` of `dfs_ramfs.c`.
The files are entries in one list behind the root directory; the name of an entry is its path
without the separators in front.

* An entry has an address. The allocation is given with the call: a free address, or none.
* A block of data is the list of its bytes, and `size` is its length.
* The array for the name has 32 bytes. A name that fills it has no zero behind it; a comparison with
  a shorter name does not come that far.
-/

namespace NbIot.Dfs

open CString Paths Run Function List Option

/-! ## The functions of `dfs_ramfs.c` -/

def ramfsNameMax : Nat := 32

/-- The error numbers of `dfs_def.h` that are used here. -/
inductive Status where
  | ok | enoent | eio | enomem | eexist | enospc
  deriving DecidableEq

inductive Node where
  | root
  | file (a : Nat)
  deriving DecidableEq

/-- The entries of the list, first to last, with the name and the data of each; the root has data
of its own, which is empty. -/
structure Ramfs where
  list : List Nat
  name : Nat → List UInt8
  data : Node → List UInt8

def Ramfs.create : Ramfs := ⟨[], fun _ => [], fun _ => []⟩

/-- The bits of `flags` that `dfs_ramfs_open` looks at. -/
structure OpenFlags where
  directory : Bool := false
  creat : Bool := false
  wronly : Bool := false
  trunc : Bool := false
  append : Bool := false
  deriving DecidableEq

/-- The fields of `struct dfs_fd` that the functions use. -/
structure Fd where
  data : Node
  size : Nat
  pos : Nat
  deriving DecidableEq

def subpath (path : List UInt8) : List UInt8 := path.dropWhile (· = pathChars.sep)

/-- The loop of `dfs_ramfs_lookup`. -/
def Ramfs.find (fs : Ramfs) (name : List UInt8) : Option Nat :=
  fs.list.find? fun a => fs.name a = name

def dfsRamfsLookup (fs : Ramfs) (path : List UInt8) : Option Node :=
  if subpath path = [] then some .root else (fs.find (subpath path)).map .file

def Ramfs.insert (fs : Ramfs) (a : Nat) (path : List UInt8) : Ramfs where
  list := a :: fs.list
  name := update fs.name a ((subpath path).take ramfsNameMax)
  data := update fs.data (.file a) []

/-- `if (file->flags & DFS_O_TRUNC)`. -/
def Ramfs.truncate (fs : Ramfs) (flags : OpenFlags) (a : Nat) : Ramfs :=
  if flags.trunc then { fs with data := update fs.data (.file a) [] } else fs

def Ramfs.opened (fs : Ramfs) (flags : OpenFlags) (n : Node) : Fd where
  data := n
  size := (fs.data n).length
  pos := if flags.append then (fs.data n).length else 0

/-- `dfs_ramfs_open`: what it returns, the file system after it, and the descriptor. -/
def dfsRamfsOpen (fs : Ramfs) (path : List UInt8) (flags : OpenFlags) (alloc : Option Nat) :
    Status × Ramfs × Option Fd :=
  if flags.directory then
    if flags.creat then (.enospc, fs, none)
    else
      match dfsRamfsLookup fs path with
      | none => (.enoent, fs, none)
      | some n => (.ok, fs, some (fs.opened flags n))
  else
    match dfsRamfsLookup fs path with
    | some .root => (.enoent, fs, none)
    | some (.file a) =>
      (.ok, fs.truncate flags a, some ((fs.truncate flags a).opened flags (.file a)))
    | none =>
      if flags.creat ∨ flags.wronly then
        match alloc with
        | none => (.enomem, fs, none)
        | some a =>
          let fs := (fs.insert a path).truncate flags a
          (.ok, fs, some (fs.opened flags (.file a)))
      else (.enoent, fs, none)

/-- `dfs_ramfs_unlink`; the root would be taken out of its own list and freed. -/
def dfsRamfsUnlink (fs : Ramfs) (path : List UInt8) : Option (Status × Ramfs) :=
  match dfsRamfsLookup fs path with
  | none => some (.enoent, fs)
  | some .root => none
  | some (.file a) => some (.ok, { fs with list := fs.list.filter (· ≠ a) })

/-- `dfs_ramfs_rename`; nobody reads the name of the root. -/
def dfsRamfsRename (fs : Ramfs) (oldpath newpath : List UInt8) : Status × Ramfs :=
  match dfsRamfsLookup fs newpath with
  | some _ => (.eexist, fs)
  | none =>
    match dfsRamfsLookup fs oldpath with
    | none => (.enoent, fs)
    | some .root => (.ok, fs)
    | some (.file a) =>
      (.ok, { fs with name := update fs.name a (newpath.take ramfsNameMax) })

/-! ## The map that they stand for -/

structure File where
  entry : Nat
  content : List UInt8
  deriving DecidableEq

abbrev Files := List UInt8 → Option File

inductive NameAction where
  | create (path : List UInt8) (flags : OpenFlags) (alloc : Option Nat)
  | unlink (path : List UInt8)
  | rename (oldpath newpath : List UInt8)

def Files.create (files : Files) (path : List UInt8) (flags : OpenFlags) (alloc : Option Nat) :
    Files :=
  if flags.directory then files
  else
    match files path.tail with
    | some f =>
      if flags.trunc then update files path.tail (some { f with content := [] })
      else files
    | none =>
      if flags.creat ∨ flags.wronly then
        match alloc with
        | some a => update files path.tail (some ⟨a, []⟩)
        | none => files
      else files

def Files.rename (files : Files) (oldpath newpath : List UInt8) : Files :=
  match files newpath.tail, files oldpath.tail with
  | none, some f =>
    update (update files oldpath.tail none) newpath.tail (some f)
  | _, _ => files

def Files.after (files : Files) : NameAction → Files
  | .create path flags alloc => files.create path flags alloc
  | .unlink path => update files path.tail none
  | .rename oldpath newpath => files.rename oldpath newpath

structure NameState where
  fs : Ramfs
  files : Files

def NameAction.run (fs : Ramfs) : NameAction → Option Ramfs
  | .create path flags alloc => some (dfsRamfsOpen fs path flags alloc).2.1
  | .unlink path => (dfsRamfsUnlink fs path).map (·.2)
  | .rename oldpath newpath => some (dfsRamfsRename fs oldpath newpath).2

def nameStep (s : NameState) (a : NameAction) : Option NameState :=
  (a.run s.fs).map fun fs => ⟨fs, s.files.after a⟩

def NameState.start : NameState := ⟨.create, fun _ => none⟩

structure FilePath (path : List UInt8) : Prop where
  canonical : pathChars.Canonical path
  ne_root : path ≠ [pathChars.sep]
  short : path.tail.length < ramfsNameMax

def Proper (s : NameState) : NameAction → Prop
  | .create path _ alloc => FilePath path ∧ ∀ a ∈ alloc, a ∉ s.fs.list
  | .unlink path => FilePath path
  | .rename oldpath newpath => FilePath oldpath ∧ FilePath newpath

/-- A path is found exactly when the map has it, and the entry that is found has the data that the
map says. -/
def NamesAgree (s : NameState) : Prop :=
  ∀ path, FilePath path → (dfsRamfsLookup s.fs path).map (fun n => (n, s.fs.data n)) =
      (s.files path.tail).map fun f => (.file f.entry, f.content)

def RenameFails (s : NameState) : NameAction → Prop
  | .rename oldpath newpath =>
    dfsRamfsLookup s.fs newpath ≠ none ∨ dfsRamfsLookup s.fs oldpath = none
  | _ => True

/-! ## Lookups -/

section

variable {fs : Ramfs} {path name : List UInt8} {a : Nat}

lemma FilePath.subpath_eq (h : FilePath path) :
    subpath path = path.tail ∧ path.tail ≠ [] ∧ path.tail.head? ≠ some pathChars.sep := by
  obtain ⟨t, rfl⟩ : ∃ t, path = pathChars.sep :: t := by
    have habs := h.canonical.absolute
    cases path with
    | nil => simp at habs
    | cons c t => exact ⟨t, by simpa using habs⟩
  have hne : t ≠ [] := by
    rintro rfl
    exact h.ne_root rfl
  have hhead : t.head? ≠ some pathChars.sep := by
    intro heq
    obtain ⟨u, rfl⟩ : ∃ u, t = pathChars.sep :: u := by
      cases t with
      | nil => simp at heq
      | cons c u => exact ⟨u, by simpa using heq⟩
    -- a second separator would make an empty component
    have hcut := Alphabet.splitOn_cut (A := pathChars) (n := []) (by simp) u
    rw [nil_append] at hcut
    exact (h.canonical.components h.ne_root [] (by rw [tail_cons, hcut]; simp)).1 rfl
  refine ⟨?_, hne, hhead⟩
  rw [subpath, dropWhile_cons_of_pos (by simp), tail_cons]
  cases t with
  | nil => rfl
  | cons c u => rw [dropWhile_cons_of_neg (by simpa using hhead)]

lemma lookup_eq (h : FilePath path) (fs : Ramfs) :
    dfsRamfsLookup fs path = (fs.find path.tail).map .file := by
  obtain ⟨hsub, hne, -⟩ := h.subpath_eq
  rw [dfsRamfsLookup, hsub, if_neg hne]

lemma find_spec (h : fs.find name = some a) : a ∈ fs.list ∧ fs.name a = name :=
  ⟨mem_of_find?_eq_some h, by simpa using find?_some h⟩

end

/-! ## Entries -/

/-- Two entries have different names, unless these begin with a separator. -/
structure Apart (fs : Ramfs) : Prop where
  nodup : fs.list.Nodup
  names : ∀ a ∈ fs.list, ∀ b ∈ fs.list, fs.name a = fs.name b →
    a = b ∨ (fs.name a).head? = some pathChars.sep

section

variable {fs : Ramfs} {path oldpath newpath name : List UInt8} {a b : Nat} {flags : OpenFlags}

lemma find_insert (hfree : a ∉ fs.list) (path name : List UInt8) : (fs.insert a path).find name =
      if (subpath path).take ramfsNameMax = name then some a else fs.find name := by
  unfold Ramfs.find Ramfs.insert
  rw [find?_cons]
  simp only [update_self]
  by_cases hname : (subpath path).take ramfsNameMax = name
  · simp [hname]
  simp only [hname]
  refine find?_congr fun b hb => ?_
  have hne : b ≠ a := fun heq => hfree (heq ▸ hb)
  simp [update_of_ne hne]

lemma data_insert_of_ne {n : Node} (h : n ≠ .file a) :
    (fs.insert a path).data n = fs.data n := update_of_ne h _ _

lemma find_truncate (flags : OpenFlags) (a : Nat) (name : List UInt8) :
    (fs.truncate flags a).find name = fs.find name := by
  unfold Ramfs.truncate
  split <;> rfl

lemma data_truncate (flags : OpenFlags) (a : Nat) (n : Node) :
    (fs.truncate flags a).data n = if flags.trunc ∧ n = .file a then [] else fs.data n := by
  unfold Ramfs.truncate
  by_cases ht : flags.trunc = true
  · by_cases hn : n = .file a
    · simp [ht, hn]
    simp [ht, hn]
  simp [ht]

lemma Apart.truncate (h : Apart fs) (flags : OpenFlags) (a : Nat) :
    Apart (fs.truncate flags a) := by
  unfold Ramfs.truncate
  split
  · exact ⟨h.nodup, h.names⟩
  exact h

lemma Apart.insert (h : Apart fs) (hpath : FilePath path) (hnone : fs.find path.tail = none)
    (hfree : a ∉ fs.list) : Apart (fs.insert a path) := by
  have hname : (subpath path).take ramfsNameMax = path.tail := by
    rw [hpath.subpath_eq.1, take_of_length_le hpath.short.le]
  have hother : ∀ b ∈ fs.list, (fs.insert a path).name b = fs.name b := by
    intro b hb
    refine update_of_ne ?_ _ _
    rintro rfl
    exact hfree hb
  have hself : (fs.insert a path).name a = path.tail := by
    rw [← hname]
    exact update_self _ _ _
  have hne : ∀ b ∈ fs.list, fs.name b ≠ path.tail := by
    intro b hb heq
    have := find?_eq_none.mp hnone b hb
    simp [heq] at this
  refine ⟨nodup_cons.mpr ⟨hfree, h.nodup⟩, ?_⟩
  intro b hb c hc heq
  rcases mem_cons.mp hb with hba | hb'
  · rcases mem_cons.mp hc with hca | hc'
    · exact .inl (hba.trans hca.symm)
    rw [hba, hself, hother c hc'] at heq
    exact absurd heq.symm (hne c hc')
  rcases mem_cons.mp hc with hca | hc'
  · rw [hca, hself, hother b hb'] at heq
    exact absurd heq (hne b hb')
  rw [hother b hb', hother c hc'] at heq
  rw [hother b hb']
  exact h.names b hb' c hc' heq

/-- The four ways through `dfs_ramfs_open` with such a path. -/
inductive Opening (fs : Ramfs) (path : List UInt8) (flags : OpenFlags) (alloc : Option Nat) :
    Ramfs → Prop where
  | same (h : flags.directory = true ∨ fs.find path.tail = none ∧
      (¬ (flags.creat ∨ flags.wronly) ∨ alloc = none)) : Opening fs path flags alloc fs
  | found (hdir : flags.directory = false) {a : Nat} (ha : fs.find path.tail = some a) :
      Opening fs path flags alloc (fs.truncate flags a)
  | made (hdir : flags.directory = false) (hnone : fs.find path.tail = none)
      (hflags : flags.creat ∨ flags.wronly) {a : Nat} (ha : alloc = some a) :
      Opening fs path flags alloc ((fs.insert a path).truncate flags a)

lemma opening_of_open (hpath : FilePath path) (fs : Ramfs) (flags : OpenFlags)
    (alloc : Option Nat) : Opening fs path flags alloc (dfsRamfsOpen fs path flags alloc).2.1 := by
  unfold dfsRamfsOpen
  rw [lookup_eq hpath]
  by_cases hdir : flags.directory = true
  · rw [if_pos hdir]
    have hsame : Opening fs path flags alloc fs := .same (.inl hdir)
    split
    · exact hsame
    split
    · exact hsame
    exact hsame
  rw [if_neg hdir]
  have hdir' : flags.directory = false := by simpa using hdir
  cases hf : fs.find path.tail with
  | some a => exact .found hdir' hf
  | none =>
    show Opening _ _ _ _ (if _ then _ else _ : Status × Ramfs × Option Fd).2.1
    split
    · rename_i hflags
      cases alloc with
      | none => exact .same (.inr ⟨hf, Or.inr rfl⟩)
      | some a => exact .made hdir' hf hflags rfl
    rename_i hflags
    exact .same (.inr ⟨hf, Or.inl hflags⟩)

def Ramfs.fileOf (fs : Ramfs) (name : List UInt8) : Option File :=
  (fs.find name).map fun a => ⟨a, fs.data (.file a)⟩

lemma namesAgree_iff {s : NameState} :
    NamesAgree s ↔ ∀ path, FilePath path → s.fs.fileOf path.tail = s.files path.tail := by
  refine forall₂_congr fun path hpath => ?_
  rw [lookup_eq hpath, Ramfs.fileOf]
  cases s.fs.find path.tail with
  | none =>
    cases s.files path.tail with
    | none => simp
    | some f => simp
  | some a =>
    cases s.files path.tail with
    | none => simp
    | some f =>
      cases f
      simp

lemma fileOf_eq_none (h : fs.find name = none) : fs.fileOf name = none := by
  rw [Ramfs.fileOf, h, map_none]

lemma fileOf_eq_some (h : fs.find name = some a) :
    fs.fileOf name = some ⟨a, fs.data (.file a)⟩ := by
  rw [Ramfs.fileOf, h, map_some]

lemma fileOf_truncate (h : fs.find path.tail = some a) (flags : OpenFlags) :
    (fs.truncate flags a).fileOf =
      if flags.trunc then update fs.fileOf path.tail (some ⟨a, []⟩) else fs.fileOf := by
  funext name
  rw [Ramfs.fileOf, find_truncate]
  by_cases ht : flags.trunc = true
  · rw [if_pos ht]
    by_cases hname : name = path.tail
    · subst hname
      rw [update_self, h, map_some, data_truncate, if_pos ⟨ht, rfl⟩]
    rw [update_of_ne hname, Ramfs.fileOf]
    cases hf : fs.find name with
    | none => rfl
    | some b =>
      -- another name is the name of another entry
      have hne : Node.file b ≠ .file a := by
        rintro heq
        obtain rfl := Node.file.inj heq
        exact hname ((find_spec hf).2.symm.trans (find_spec h).2)
      rw [map_some, map_some, data_truncate, if_neg fun hboth => hne hboth.2]
  rw [if_neg ht]
  unfold Ramfs.fileOf Ramfs.truncate
  rw [if_neg ht]

lemma fileOf_insert (hpath : FilePath path) (hfree : a ∉ fs.list) :
    (fs.insert a path).fileOf = update fs.fileOf path.tail (some ⟨a, []⟩) := by
  have hstored : (subpath path).take ramfsNameMax = path.tail := by
    rw [hpath.subpath_eq.1, take_of_length_le hpath.short.le]
  funext name
  rw [Ramfs.fileOf, find_insert hfree, hstored]
  by_cases hname : path.tail = name
  · subst hname
    have hdata : (fs.insert a path).data (.file a) = [] := update_self _ _ _
    rw [if_pos rfl, update_self, map_some, hdata]
  rw [if_neg hname, update_of_ne (Ne.symm hname), Ramfs.fileOf]
  cases hf : fs.find name with
  | none => rfl
  | some b =>
    have hne : Node.file b ≠ .file a := by
      rintro heq
      obtain rfl := Node.file.inj heq
      exact hfree (find_spec hf).1
    rw [map_some, map_some, data_insert_of_ne hne]

lemma fileOf_unlink (hapart : Apart fs) (hpath : FilePath path) (h : fs.find path.tail = some a) :
    Ramfs.fileOf { fs with list := fs.list.filter (· ≠ a) } = update fs.fileOf path.tail none := by
  funext name
  by_cases hname : name = path.tail
  · subst hname
    rw [update_self]
    refine fileOf_eq_none (find?_eq_none.mpr fun b hb hhit => ?_)
    obtain ⟨hmem, hne⟩ := mem_filter.mp hb
    have hb' : fs.name b = path.tail := by simpa using hhit
    rcases hapart.names b hmem a (find_spec h).1 (hb'.trans (find_spec h).2.symm) with heq | hsep
    · simp [heq] at hne
    exact hpath.subpath_eq.2.2 (hb' ▸ hsep)
  rw [update_of_ne hname]
  have hfind : Ramfs.find { fs with list := fs.list.filter (· ≠ a) } name = fs.find name := by
    unfold Ramfs.find
    rw [find?_filter]
    refine find?_congr fun b _ => ?_
    by_cases hhit : fs.name b = name
    · have hne : b ≠ a := by
        rintro rfl
        exact hname (hhit.symm.trans (find_spec h).2)
      simp [hne]
    simp [hhit]
  rw [Ramfs.fileOf, hfind, Ramfs.fileOf]

lemma fileOf_open (hpath : FilePath path) {alloc : Option Nat} (hfree : ∀ a ∈ alloc, a ∉ fs.list)
    {files : Files} (hfiles : fs.fileOf path.tail = files path.tail) :
    ∀ name, (fs.fileOf name = files name) → (dfsRamfsOpen fs path flags alloc).2.1.fileOf name =
        files.create path flags alloc name := by
  intro name hsame
  have hupdate : ∀ f, update fs.fileOf path.tail f name = update files path.tail f name := by
    intro f
    by_cases hname : name = path.tail
    · rw [hname, update_self, update_self]
    rw [update_of_ne hname, update_of_ne hname, hsame]
  have hcase := opening_of_open hpath fs flags alloc
  generalize (dfsRamfsOpen fs path flags alloc).2.1 = fs' at hcase ⊢
  unfold Files.create
  cases hcase with
  | same hwhy =>
    rcases hwhy with hdir | ⟨hnone, hwhy⟩
    · rw [if_pos hdir, hsame]
    rw [← hfiles, fileOf_eq_none hnone]
    rcases hwhy with hflags | rfl
    · simp [hflags, hsame]
    simp [hsame]
  | found hdir ha =>
    have hdir' : ¬ flags.directory = true := by simp [hdir]
    rw [← hfiles, fileOf_eq_some ha, fileOf_truncate ha]
    split
    · exact hupdate _
    exact hsame
  | @made hdir hnone hflags a ha =>
    subst ha
    have hfind : (fs.insert a path).find path.tail = some a := by
      rw [find_insert (hfree a rfl), if_pos]
      rw [hpath.subpath_eq.1, take_of_length_le hpath.short.le]
    have hdir' : ¬ flags.directory = true := by simp [hdir]
    rw [← hfiles, fileOf_eq_none hnone, fileOf_truncate hfind, fileOf_insert hpath (hfree a rfl),
      update_idem, ite_self, if_neg hdir']
    rw [if_pos hflags]
    exact hupdate _

lemma head?_newpath (hnew : FilePath newpath) :
    (newpath.take ramfsNameMax).head? = some pathChars.sep := by
  rw [head?_take]
  exact hnew.canonical.absolute

lemma find_renamed (hnew : FilePath newpath) (hnone : fs.find newpath.tail = none) :
    Ramfs.find { fs with name := update fs.name a (newpath.take ramfsNameMax) }
      newpath.tail = none := by
  refine find?_eq_none.mpr fun b hb hhit => ?_
  have hname : update fs.name a (newpath.take ramfsNameMax) b = newpath.tail := by
    simpa using hhit
  by_cases hba : b = a
  · rw [hba, update_self] at hname
    exact hnew.subpath_eq.2.2 (hname ▸ head?_newpath hnew)
  rw [update_of_ne hba] at hname
  have hmiss := find?_eq_none.mp hnone b hb
  simp [hname] at hmiss

lemma Apart.unlink (h : Apart fs) (a : Nat) : Apart { fs with list := fs.list.filter (· ≠ a) } where
  nodup := h.nodup.filter _
  names := fun b hb c hc =>
    h.names b (mem_of_mem_filter hb) c (mem_of_mem_filter hc)

lemma Apart.rename (h : Apart fs) (hhead : name.head? = some pathChars.sep) :
    Apart { fs with name := update fs.name a name } := by
  refine ⟨h.nodup, fun b hb c hc heq => ?_⟩
  simp only at heq ⊢
  by_cases hba : b = a
  · subst hba
    rw [update_self]
    exact .inr hhead
  rw [update_of_ne hba] at heq ⊢
  by_cases hca : c = a
  · subst hca
    rw [update_self] at heq
    exact .inr (heq ▸ hhead)
  rw [update_of_ne hca] at heq
  exact h.names b hb c hc heq

end

/-! ## What a call does -/

inductive Moves (fs : Ramfs) : NameAction → Ramfs → Prop where
  | create {path : List UInt8} {flags : OpenFlags} {alloc : Option Nat} {fs' : Ramfs}
      (h : Opening fs path flags alloc fs') : Moves fs (.create path flags alloc) fs'
  | absent {path : List UInt8} (h : fs.find path.tail = none) : Moves fs (.unlink path) fs
  | unlink {path : List UInt8} {a : Nat} (h : fs.find path.tail = some a) :
      Moves fs (.unlink path) { fs with list := fs.list.filter (· ≠ a) }
  | refuse {oldpath newpath : List UInt8}
      (h : fs.find newpath.tail ≠ none ∨ fs.find oldpath.tail = none) :
      Moves fs (.rename oldpath newpath) fs
  | rename {oldpath newpath : List UInt8} {a : Nat} (hnew : fs.find newpath.tail = none)
      (hold : fs.find oldpath.tail = some a) :
      Moves fs (.rename oldpath newpath)
        { fs with name := update fs.name a (newpath.take ramfsNameMax) }

section

variable {s s' : NameState} {act : NameAction}

lemma moves_of_proper (hD : Proper s act) :
    ∃ fs, nameStep s act = some ⟨fs, s.files.after act⟩ ∧ Moves s.fs act fs := by
  cases act with
  | create path flags alloc => exact ⟨_, rfl, .create (opening_of_open hD.1 s.fs flags alloc)⟩
  | unlink path =>
    have hlook := lookup_eq hD s.fs
    cases hf : s.fs.find path.tail with
    | none =>
      have hrun : dfsRamfsUnlink s.fs path = some (.enoent, s.fs) := by
        rw [dfsRamfsUnlink, hlook, hf]
        rfl
      exact ⟨s.fs, by simp [nameStep, NameAction.run, hrun], .absent hf⟩
    | some a =>
      have hrun : dfsRamfsUnlink s.fs path =
          some (.ok, { s.fs with list := s.fs.list.filter (· ≠ a) }) := by
        rw [dfsRamfsUnlink, hlook, hf]
        rfl
      exact ⟨_, by simp [nameStep, NameAction.run, hrun], .unlink hf⟩
  | rename oldpath newpath =>
    refine ⟨_, rfl, ?_⟩
    rw [dfsRamfsRename, lookup_eq hD.2, lookup_eq hD.1]
    cases hnew : s.fs.find newpath.tail with
    | some a => exact .refuse (.inl (by simp [hnew]))
    | none =>
      cases hold : s.fs.find oldpath.tail with
      | none => exact .refuse (.inr hold)
      | some a => exact .rename hnew hold

lemma moves_of_nameStep (hD : Proper s act) (h : nameStep s act = some s') :
    Moves s.fs act s'.fs ∧ s'.files = s.files.after act := by
  obtain ⟨fs, hstep, hmoves⟩ := moves_of_proper hD
  obtain rfl := Option.some.inj (hstep.symm.trans h)
  exact ⟨hmoves, rfl⟩

lemma apart_step (hI : Apart s.fs) (hD : Proper s act) (h : nameStep s act = some s') :
    Apart s'.fs := by
  obtain ⟨hmoves, -⟩ := moves_of_nameStep hD h
  generalize s'.fs = fs' at hmoves
  cases hmoves with
  | create hopen =>
    cases hopen with
    | same hwhy => exact hI
    | found hdir ha => exact hI.truncate _ _
    | made hdir hnone hflags ha => exact (hI.insert hD.1 hnone (hD.2 _ ha)).truncate _ _
  | absent hnone => exact hI
  | unlink ha => exact hI.unlink _
  | refuse hwhy => exact hI
  | rename hnew hold => exact hI.rename (head?_newpath hD.2)

lemma agree_step (hI : Apart s.fs) (hD : Proper s act) (hP : NamesAgree s)
    (h : nameStep s act = some s') : NamesAgree s' ↔ RenameFails s act := by
  rw [namesAgree_iff] at hP ⊢
  obtain ⟨hmoves, hfiles⟩ := moves_of_nameStep hD h
  rw [hfiles]
  cases act with
  | create path flags alloc =>
    refine iff_of_true (fun p hp => ?_) trivial
    obtain rfl : ⟨_, _⟩ = s' := Option.some.inj h
    exact fileOf_open hD.1 hD.2 (hP path hD.1) _ (hP p hp)
  | unlink path =>
    refine iff_of_true (fun p hp => ?_) trivial
    generalize s'.fs = fs' at hmoves ⊢
    have hother : ∀ name, name ≠ path.tail → (s.files.after (.unlink path)) name = s.files name :=
      fun name hname => update_of_ne hname _ _
    have hself : (s.files.after (.unlink path)) path.tail = none := update_self _ _ _
    cases hmoves with
    | absent hnone =>
      by_cases hname : p.tail = path.tail
      · rw [hname, hself, fileOf_eq_none hnone]
      rw [hother _ hname, hP p hp]
    | unlink ha =>
      rw [fileOf_unlink hI hD ha]
      by_cases hname : p.tail = path.tail
      · rw [hname, hself, update_self]
      rw [hother _ hname, update_of_ne hname, hP p hp]
  | rename oldpath newpath =>
    have hnew := hP newpath hD.2
    have hold := hP oldpath hD.1
    have hfails : RenameFails s (.rename oldpath newpath) ↔
        s.fs.find newpath.tail ≠ none ∨ s.fs.find oldpath.tail = none := by
      show dfsRamfsLookup s.fs newpath ≠ none ∨ dfsRamfsLookup s.fs oldpath = none ↔ _
      rw [lookup_eq hD.2, lookup_eq hD.1, Ne, map_eq_none_iff, map_eq_none_iff]
    rw [hfails]
    generalize s'.fs = fs' at hmoves ⊢
    cases hmoves with
    | refuse hwhy =>
      refine iff_of_true (fun p hp => ?_) hwhy
      show s.fs.fileOf p.tail = s.files.rename oldpath newpath p.tail
      rw [Files.rename, ← hnew, ← hold, hP p hp]
      rcases hwhy with hthere | hnone
      · obtain ⟨a, ha⟩ := ne_none_iff_exists'.mp hthere
        rw [fileOf_eq_some ha]
      rw [fileOf_eq_none hnone]
      cases s.fs.fileOf newpath.tail <;> rfl
    | @rename _ _ a hnone ha =>
      refine iff_of_false (fun hall => ?_) (by simp [hnone, ha])
      -- the map has the new name, and no entry has it
      have hmap : s.files.rename oldpath newpath newpath.tail = some ⟨a, s.fs.data (.file a)⟩ := by
        rw [Files.rename, ← hnew, ← hold, fileOf_eq_none hnone, fileOf_eq_some ha]
        exact update_self _ _ _
      have hagree := (hall newpath hD.2).symm.trans (fileOf_eq_none (find_renamed hD.2 hnone))
      exact absurd (hmap.symm.trans hagree) (by simp)

end

/-- **The names of the files.** In every sequence of creations, unlinks and renames from an empty
file system, the entries stand for the map of names to files after every call exactly when no rename
succeeds. -/
theorem names_agree_iff (calls : List NameAction) (hproper : Meets nameStep Proper .start calls) :
    (∀ s, Reached nameStep .start calls s → NamesAgree s) ↔
      Meets nameStep RenameFails .start calls := by
  have hstart : Apart NameState.start.fs := ⟨nodup_nil, fun a ha => by cases ha⟩
  obtain ⟨s', hs', -⟩ : ∃ s', exec nameStep .start calls = some s' ∧ Apart s'.fs := by
    refine exec_isSome_of_meets (fun s act hI hD => ?_) hstart hproper
    obtain ⟨fs, hstep, -⟩ := moves_of_proper hD
    exact ⟨_, hstep, apart_step hI hD hstep⟩
  refine always_iff_meets (fun s act s' hI hD => apart_step hI hD)
    (fun s act s' hI hD hP => agree_step hI hD hP) hstart ?_ hproper hs'
  rw [namesAgree_iff]
  exact fun path _ => rfl

def pathOf (c : Char) : List UInt8 := ['/', c].map Char.toUInt8

lemma filePath_pathOf {c : Char} (h : c = 'a' ∨ c = 'b') : FilePath (pathOf c) := by
  rcases h with rfl | rfl
  all_goals
    refine ⟨⟨by decide, fun _ n hn => ?_, fun _ => by decide⟩, by decide, by decide⟩
    obtain rfl := mem_singleton.mp hn
    decide

def busyCalls : List NameAction :=
  [.create (pathOf 'a') { creat := true } (some 0), .create (pathOf 'b') { creat := true } (some 1),
    .rename (pathOf 'a') (pathOf 'b'), .unlink (pathOf 'a')]

theorem names_agree_busy : ∃ s, exec nameStep .start busyCalls = some s ∧ NamesAgree s ∧
      dfsRamfsLookup s.fs (pathOf 'b') = some (.file 1) ∧
      dfsRamfsLookup s.fs (pathOf 'a') = none := by
  have ha : FilePath (pathOf 'a') := filePath_pathOf (.inl rfl)
  have hb : FilePath (pathOf 'b') := filePath_pathOf (.inr rfl)
  refine ⟨_, rfl, ?_, by decide, by decide⟩
  refine (names_agree_iff busyCalls ?_).mpr ?_ _ (reached_last rfl)
  · refine ⟨⟨ha, by decide⟩, fun s hs => ?_⟩
    cases hs
    refine ⟨⟨hb, by decide⟩, fun s _ => ⟨⟨ha, hb⟩, fun s _ => ⟨ha, fun s _ => trivial⟩⟩⟩
  refine ⟨trivial, fun s hs => ?_⟩
  cases hs
  refine ⟨trivial, fun s hs => ?_⟩
  cases hs
  exact ⟨.inl (by decide), fun s _ => ⟨trivial, fun s _ => trivial⟩⟩

/-- After `rename("/a", "/b")` has succeeded there is no `/b`. -/
theorem rename_loses_file :
    ∃ s s', exec nameStep .start [.create (pathOf 'a') { creat := true } (some 0)] = some s ∧
      (dfsRamfsRename s.fs (pathOf 'a') (pathOf 'b')).1 = .ok ∧
      nameStep s (.rename (pathOf 'a') (pathOf 'b')) = some s' ∧
      dfsRamfsLookup s'.fs (pathOf 'b') = none ∧ ¬ NamesAgree s' := by
  have hb : FilePath (pathOf 'b') := filePath_pathOf (.inr rfl)
  exact ⟨_, _, rfl, by decide, rfl, by decide, fun hagree => absurd (hagree _ hb) (by decide)⟩

end NbIot.Dfs
