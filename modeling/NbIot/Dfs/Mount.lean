import NbIot.Basic.Run
import NbIot.Basic.Slots
import NbIot.Dfs.Normalize

/-! # File system types and mounts

`dfs_register`, `dfs_mount` and `dfs_unmount` of `dfs_fs.c`, on a table of file system types and a
table of mounted file systems, each of any size. A name is a text without its zero.

* What the functions outside `dfs_fs.c` return in the course of a call is given with the call, as an
  `Env`.
* An access through an entry of the type table that is `RT_NULL` is a fault.
-/

namespace NbIot.Dfs

open Paths Slots Run List

/-! ## The functions of `dfs_fs.c` -/

/-- `struct dfs_filesystem_operation`: its name, and which functions it has. -/
structure FsOps where
  name : List UInt8
  hasMount : Bool
  hasUnmount : Bool
  deriving DecidableEq

structure Filesystem where
  devId : Option Nat
  path : Option (List UInt8)
  ops : Option FsOps
  data : Nat
  deriving DecidableEq

/-- What `rt_memset` makes of an entry. -/
def cleared : Filesystem := ⟨none, none, none, 0⟩

/-- The entry is used, and its file system is mounted on `p`. -/
structure Filesystem.Mounted (fs : Filesystem) (p : List UInt8) : Prop where
  path : fs.path = some p
  used : fs.ops ≠ none

instance (fs : Filesystem) (p : List UInt8) : Decidable (fs.Mounted p) :=
  decidable_of_iff (fs.path = some p ∧ fs.ops ≠ none) ⟨fun h => ⟨h.1, h.2⟩, fun h => ⟨h.1, h.2⟩⟩

/-- `dfs_register`: the return value and the type table after it. -/
def dfsRegister (types : List (Option FsOps)) (ops : FsOps) : Int × List (Option FsOps) :=
  match scan Option.isNone (·.any (·.name = ops.name)) types 0 none with
  | (true, _) => (-1, types)
  | (false, some i) => (0, types.set i (some ops))
  | (false, none) => (0, types)

/-- The loop of `dfs_mount` over the type table. -/
def findOps (filesystemtype : List UInt8) : List (Option FsOps) → Except Fault (Option FsOps)
  | [] => .ok none
  | none :: _ => .error .nullPointer
  | some ops :: rest =>
    if ops.name = filesystemtype then .ok (some ops) else findOps filesystemtype rest

/-- What others return during a call: the device of the name, whether memory suffices, whether the
directory can be opened, whether the device can be opened, what the file system's `mount` stores
unless it fails, and whether its `unmount` succeeds. -/
structure Env where
  device : Option Nat
  room : Bool
  isDirectory : List UInt8 → Bool
  deviceOpens : Bool
  mounts : Option Nat
  unmounts : Bool

/-- `"/dev"`. -/
def devPath : List UInt8 := ['/', 'd', 'e', 'v'].map Char.toUInt8

/-- `dfs_mount`, from the search of an entry on. -/
def mountEntry (table : List Filesystem) (env : Env) (devId : Option Nat) (ops : FsOps)
    (path fullpath : List UInt8) : Int × List Filesystem :=
  match scan (·.ops.isNone) (·.path = some path) table 0 none with
  | (true, _) => (-1, table)
  | (false, none) => (-1, table)
  | (false, some i) =>
    let reserved := table.set i ⟨devId, some fullpath, some ops, ((table[i]?).map (·.data)).getD 0⟩
    if devId ≠ none ∧ ¬ env.deviceOpens then (-1, reserved.set i cleared)
    else
      match env.mounts with
      | none => (-1, reserved.set i cleared)
      | some data => (0, reserved.set i ⟨devId, some fullpath, some ops, data⟩)

/-- `dfs_mount`, from the check of the path on. -/
def mountPath (table : List Filesystem) (env : Env) (devId : Option Nat) (ops : FsOps)
    (path : List UInt8) : Option (List UInt8) → Int × List Filesystem
  | none => (-1, table)
  | some fullpath =>
    if fullpath ≠ [pathChars.sep] ∧ fullpath ≠ devPath ∧ ¬ env.isDirectory fullpath then
      (-1, table)
    else mountEntry table env devId ops path fullpath

/-- `dfs_mount`, from the end of the first loop on. -/
def mountType (table : List Filesystem) (env : Env) (devId : Option Nat) (path : List UInt8) :
    Option FsOps → Except Fault (Int × List Filesystem)
  | none => .ok (-1, table)
  | some ops =>
    if ops.hasMount then
      (dfsNormalizePath env.room none path).map (mountPath table env devId ops path)
    else .ok (-1, table)

/-- `dfs_mount`: the return value and the table of file systems after it. -/
def dfsMount (types : List (Option FsOps)) (table : List Filesystem) (env : Env)
    (deviceName : Option (List UInt8)) (path filesystemtype : List UInt8) :
    Except Fault (Int × List Filesystem) :=
  if deviceName ≠ none ∧ env.device = none then .ok (-1, table)
  else
    (findOps filesystemtype types).bind
      (mountType table env (if deviceName = none then none else env.device) path)

/-- `dfs_unmount`, on the entry that it has found. -/
def unmountEntry (table : List Filesystem) (env : Env) (i : Nat) (fs : Filesystem) :
    Except Fault (Int × List Filesystem) :=
  match fs.ops with
  | none => .error .nullPointer
  | some ops =>
    if ops.hasUnmount ∧ env.unmounts then .ok (0, table.set i cleared) else .ok (-1, table)

def dfsUnmount (table : List Filesystem) (env : Env) (specialfile : List UInt8) :
    Except Fault (Int × List Filesystem) :=
  (dfsNormalizePath env.room none specialfile).bind fun
    | none => .ok (-1, table)
    | some fullpath =>
      match table.findIdx? (·.path = some fullpath) with
      | none => .ok (-1, table)
      | some i => unmountEntry table env i (table.getD i cleared)

/-! ## The table of types -/

def Registered (types : List (Option FsOps)) (name : List UInt8) : Prop :=
  ∃ ops ∈ types, ops.any (·.name = name) = true
  deriving Decidable

/-- The type table after calls of `dfs_register`. -/
def registered (size : Nat) (calls : List FsOps) : List (Option FsOps) :=
  calls.foldl (fun types ops => (dfsRegister types ops).2) (List.replicate size none)

/-- `dfs_register` returns `RT_EOK` exactly when it has entered a new type. -/
def RegisterTells (types : List (Option FsOps)) (ops : FsOps) : Prop :=
  (dfsRegister types ops).1 = 0 ↔
    Registered (dfsRegister types ops).2 ops.name ∧ ¬ Registered types ops.name

/-- `dfs_mount` finds a registered type, and returns `-1` for any other without a fault. -/
def MountFinds (types : List (Option FsOps)) (name : List UInt8) : Prop :=
  if Registered types name then
    ∃ ops, findOps name types = .ok (some ops) ∧ some ops ∈ types ∧ ops.name = name
  else
    ∀ (table : List Filesystem) (env : Env) (deviceName : Option (List UInt8)) (path : List UInt8),
      dfsMount types table env deviceName path name = .ok (-1, table)

variable {types : List (Option FsOps)} {ops : FsOps}

section

variable {name : List UInt8}

lemma dfsRegister_cases (types : List (Option FsOps)) (ops : FsOps) :
    (Registered types ops.name ∧ dfsRegister types ops = (-1, types)) ∨
    (¬ Registered types ops.name ∧ none ∉ types ∧ dfsRegister types ops = (0, types)) ∨
    (¬ Registered types ops.name ∧ ∃ i, types.findIdx? Option.isNone = some i ∧
      dfsRegister types ops = (0, types.set i (some ops))) := by
  rcases scan_cases Option.isNone (·.any (·.name = ops.name)) types with
    ⟨⟨a, ha, -, hhit⟩, hfound⟩ | ⟨hnone, heq⟩
  · left
    refine ⟨⟨a, ha, hhit⟩, ?_⟩
    unfold dfsRegister
    split
    · rfl
    · rename_i h
      simp [h] at hfound
    rename_i h
    simp [h] at hfound
  have hreg : ¬ Registered types ops.name := by
    rintro ⟨a, ha, hhit⟩
    cases a with
    | none => simp at hhit
    | some o => exact absurd hhit (by simpa using hnone (some o) ha rfl)
  right
  cases hidx : types.findIdx? Option.isNone with
  | none =>
    left
    refine ⟨hreg, ?_, ?_⟩
    · intro hmem
      have hall := findIdx?_eq_none_iff.mp hidx
      simpa using hall none hmem
    rw [dfsRegister, heq, hidx]
  | some i =>
    right
    refine ⟨hreg, i, rfl, ?_⟩
    rw [dfsRegister, heq, hidx]

lemma registerTells_iff (types : List (Option FsOps)) (ops : FsOps) :
    RegisterTells types ops ↔ Registered types ops.name ∨ none ∈ types := by
  unfold RegisterTells
  rcases dfsRegister_cases types ops with ⟨hreg, heq⟩ | ⟨hreg, hfull, heq⟩ | ⟨hreg, i, hi, heq⟩
  · rw [heq]
    simp [hreg]
  · rw [heq]
    simp [hreg, hfull]
  obtain ⟨hlt, hnone, -⟩ := findIdx?_eq_some_iff_getElem.mp hi
  have hmem : none ∈ types := by
    have : types[i] = none := by simpa using hnone
    exact this ▸ getElem_mem hlt
  have hnew : Registered (types.set i (some ops)) ops.name := ⟨some ops, mem_set hlt _, by simp⟩
  rw [heq]
  simp [hreg, hmem, hnew]

def Filled (types : List (Option FsOps)) : Prop :=
  ∃ (l : List FsOps) (k : Nat), types = l.map some ++ List.replicate k none

lemma filled_register (h : Filled types) (ops : FsOps) : Filled (dfsRegister types ops).2 := by
  rcases dfsRegister_cases types ops with ⟨-, heq⟩ | ⟨-, -, heq⟩ | ⟨-, i, hi, heq⟩
  · rw [heq]
    exact h
  · rw [heq]
    exact h
  rw [heq]
  obtain ⟨l, k, rfl⟩ := h
  have hsome : (l.map some : List (Option FsOps)).findIdx? Option.isNone = none := by
    rw [findIdx?_eq_none_iff]
    intro a ha
    obtain ⟨o, -, rfl⟩ := List.mem_map.mp ha
    rfl
  rw [findIdx?_append, hsome] at hi
  cases k with
  | zero => simp at hi
  | succ k =>
    -- the first empty entry comes right behind the types
    obtain rfl : i = (l.map some).length := by
      simpa [eq_comm] using hi
    refine ⟨l ++ [ops], k, ?_⟩
    rw [replicate_succ]
    simp

lemma filled_registered (size : Nat) (calls : List FsOps) : Filled (registered size calls) := by
  have key : ∀ types, Filled types →
      Filled (calls.foldl (fun types ops => (dfsRegister types ops).2) types) := by
    induction calls with
    | nil => exact fun types h => h
    | cons ops calls ih => exact fun types h => ih _ (filled_register h ops)
  exact key _ ⟨[], size, by simp⟩

lemma findOps_append (name : List UInt8) (l : List FsOps) (rest : List (Option FsOps)) :
    (∃ ops ∈ l, ops.name = name ∧ findOps name (l.map some ++ rest) = .ok (some ops)) ∨
    ((∀ ops ∈ l, ops.name ≠ name) ∧ findOps name (l.map some ++ rest) = findOps name rest) := by
  induction l with
  | nil => exact .inr ⟨by simp, rfl⟩
  | cons o l ih =>
    rw [map_cons, cons_append, findOps]
    by_cases hname : o.name = name
    · exact .inl ⟨o, mem_cons_self, hname, if_pos hname⟩
    rw [if_neg hname]
    rcases ih with ⟨ops, hops, hn, heq⟩ | ⟨hall, heq⟩
    · exact .inl ⟨ops, mem_cons_of_mem o hops, hn, heq⟩
    exact .inr ⟨forall_mem_cons.mpr ⟨hname, hall⟩, heq⟩

lemma registered_append (l : List FsOps) (k : Nat) :
    Registered (l.map some ++ List.replicate k none) name ↔ ∃ ops ∈ l, ops.name = name := by
  constructor
  · rintro ⟨a, ha, hhit⟩
    rcases mem_append.mp ha with ha | ha
    · obtain ⟨ops, hops, rfl⟩ := List.mem_map.mp ha
      exact ⟨ops, hops, by simpa using hhit⟩
    obtain rfl := eq_of_mem_replicate ha
    simp at hhit
  rintro ⟨ops, hops, hname⟩
  exact ⟨some ops, by simp [hops], by simpa using hname⟩

lemma dfsMount_of_none (h : findOps name types = .ok none) (table : List Filesystem) (env : Env)
    (deviceName : Option (List UInt8)) (path : List UInt8) :
    dfsMount types table env deviceName path name = .ok (-1, table) := by
  rw [dfsMount, h]
  split <;> rfl

lemma mountFinds_iff (h : Filled types) :
    MountFinds types name ↔ Registered types name ∨ none ∉ types := by
  obtain ⟨l, k, rfl⟩ := h
  have hreg : Registered (l.map some ++ List.replicate k none) name ↔ _ := registered_append l k
  unfold MountFinds
  rcases findOps_append name l (List.replicate k none) with
    ⟨ops, hops, hname, heq⟩ | ⟨hall, heq⟩
  · have hyes := hreg.mpr ⟨ops, hops, hname⟩
    rw [if_pos hyes]
    exact iff_of_true ⟨ops, heq, by simp [hops], hname⟩ (.inl hyes)
  have hno : ¬ Registered (l.map some ++ List.replicate k none) name := by
    rw [hreg]
    rintro ⟨ops, hops, hname⟩
    exact hall ops hops hname
  rw [if_neg hno]
  cases k with
  | zero =>
    refine iff_of_true ?_ (.inr (by simp))
    exact dfsMount_of_none heq
  | succ k =>
    refine iff_of_false ?_ (by simp [hno])
    intro hall
    -- the entry behind the types is looked at
    have hfault := hall [] ⟨none, false, fun _ => false, false, none, false⟩ none []
    rw [dfsMount, heq] at hfault
    cases hfault

end

/-- **The type table.** On a table of any size, after any calls of `dfs_register`: another call
returns what it should exactly when the type is there already or an entry is left for it, and
`dfs_mount` finds a name as it should exactly when it is there or no entry is left. -/
theorem type_table_iff (size : Nat) (calls : List FsOps) :
    (∀ ops, RegisterTells (registered size calls) ops ↔
      Registered (registered size calls) ops.name ∨ none ∈ registered size calls) ∧
    ∀ name, MountFinds (registered size calls) name ↔
      Registered (registered size calls) name ∨ none ∉ registered size calls :=
  ⟨registerTells_iff _, fun _ => mountFinds_iff (filled_registered size calls)⟩

/-- `"ram"`. -/
def ramOps : FsOps := ⟨['r', 'a', 'm'].map Char.toUInt8, true, true⟩

/-- `"elm"`. -/
def elmOps : FsOps := ⟨['e', 'l', 'm'].map Char.toUInt8, true, true⟩

/-- A full table of one entry takes a second type without taking it; in a table of two entries of
which one is empty, the search for a type that is not there goes through the empty entry. -/
theorem type_table_fails : ((dfsRegister (registered 1 [ramOps]) elmOps).1 = 0 ∧
      ¬ Registered (dfsRegister (registered 1 [ramOps]) elmOps).2 elmOps.name) ∧
    (¬ Registered (registered 2 [ramOps]) elmOps.name ∧
      findOps elmOps.name (registered 2 [ramOps]) = .error .nullPointer) := by
  decide

/-! ## The table of mounts -/

inductive Action where
  | mount (env : Env) (deviceName : Option (List UInt8)) (path filesystemtype : List UInt8)
  | unmount (env : Env) (specialfile : List UInt8)

def Action.run (types : List (Option FsOps)) (table : List Filesystem) :
    Action → Except Fault (Int × List Filesystem)
  | .mount env deviceName path filesystemtype =>
    dfsMount types table env deviceName path filesystemtype
  | .unmount env specialfile => dfsUnmount table env specialfile

def step (types : List (Option FsOps)) (table : List Filesystem) (a : Action) :
    Option (List Filesystem) :=
  match a.run types table with
  | .ok (_, table') => some table'
  | .error _ => none

def emptyTable (size : Nat) : List Filesystem := List.replicate size cleared

def UniquePaths (table : List Filesystem) : Prop :=
  ∀ (i j : Nat) (fs gs : Filesystem) (p : List UInt8), table[i]? = some fs → table[j]? = some gs →
    fs.Mounted p → gs.Mounted p → i = j

/-- Where the normal form of the path is mounted, `dfs_mount` is called with the path in its normal
form. -/
def Spelled (table : List Filesystem) : Action → Prop
  | .mount env _ path _ =>
    ∀ fullpath, dfsNormalizePath env.room none path = .ok (some fullpath) →
      (∃ fs ∈ table, fs.Mounted fullpath) → path = fullpath
  | .unmount _ _ => True

def Tidy (table : List Filesystem) : Prop :=
  ∀ fs ∈ table, fs = cleared ∨ fs.ops ≠ none ∧ fs.path ≠ none

/-! ## What a mount does -/

section

variable {table table' : List Filesystem} {env : Env} {deviceName : Option (List UInt8)}
  {path fullpath filesystemtype : List UInt8} {ret : Int} {normal : List UInt8 → Prop}
  {devId : Option Nat} {fs : Filesystem}

/-- What a call of `dfs_mount` can do to the table: leave it, clear an empty entry, or fill one. -/
inductive Mounting (table : List Filesystem) (path : List UInt8) (normal : List UInt8 → Prop) :
    Int → List Filesystem → Prop where
  | refuse : Mounting table path normal (-1) table
  | clear {i : Nat} (hi : table.findIdx? (·.ops.isNone) = some i) :
      Mounting table path normal (-1) (table.set i cleared)
  | enter {i : Nat} {fs : Filesystem} {fullpath : List UInt8}
      (hi : table.findIdx? (·.ops.isNone) = some i) (hpath : normal fullpath)
      (hfs : fs.Mounted fullpath) (hnew : ∀ gs ∈ table, ¬ gs.Mounted path) :
      Mounting table path normal 0 (table.set i fs)

lemma mounting_entry (hpath : normal fullpath) :
    Mounting table path normal (mountEntry table env devId ops path fullpath).1
      (mountEntry table env devId ops path fullpath).2 := by
  rcases scan_cases (·.ops.isNone) (·.path = some path) table with
    ⟨-, hfound⟩ | ⟨hnone, heq⟩
  · have hrefuse : mountEntry table env devId ops path fullpath = (-1, table) := by
      unfold mountEntry
      split
      · rfl
      · rfl
      rename_i h
      simp [h] at hfound
    rw [hrefuse]
    exact .refuse
  cases hi : table.findIdx? (·.ops.isNone) with
  | none =>
    have hrefuse : mountEntry table env devId ops path fullpath = (-1, table) := by
      rw [mountEntry, heq, hi]
    rw [hrefuse]
    exact .refuse
  | some i =>
    have hnew : ∀ gs ∈ table, ¬ gs.Mounted path := by
      intro gs hgs hm
      have hused : gs.ops.isNone = false := by
        cases hops : gs.ops with
        | none => exact absurd hops hm.used
        | some o => rfl
      simpa [hm.path] using hnone gs hgs hused
    rw [mountEntry, heq, hi]
    simp only [set_set]
    split
    · exact .clear hi
    split
    · exact .clear hi
    exact .enter hi hpath ⟨rfl, by simp⟩ hnew

lemma mounting_path {full : Option (List UInt8)}
    (hfull : ∀ fullpath, full = some fullpath → normal fullpath)
    (h : mountPath table env devId ops path full = (ret, table')) :
    Mounting table path normal ret table' := by
  obtain ⟨rfl, rfl⟩ : (mountPath table env devId ops path full).1 = ret ∧
      (mountPath table env devId ops path full).2 = table' := by simp [h]
  cases full with
  | none => exact .refuse
  | some fullpath =>
    rw [mountPath]
    split
    · exact .refuse
    exact mounting_entry (hfull fullpath rfl)

lemma mounting_of_dfsMount
    (h : dfsMount types table env deviceName path filesystemtype = .ok (ret, table')) :
    Mounting table path (fun fullpath => dfsNormalizePath env.room none path = .ok (some fullpath))
      ret table' := by
  unfold dfsMount at h
  split at h
  · cases h
    exact .refuse
  cases hfind : findOps filesystemtype types with
  | error e =>
    rw [hfind] at h
    cases h
  | ok found =>
    rw [hfind] at h
    replace h : mountType table env _ path found = .ok (ret, table') := h
    cases found with
    | none =>
      cases h
      exact .refuse
    | some ops =>
      rw [mountType] at h
      split at h
      · cases hnorm : dfsNormalizePath env.room none path with
        | error e =>
          rw [hnorm] at h
          cases h
        | ok full =>
          rw [hnorm] at h
          replace h := Except.ok.inj h
          have hfull : ∀ fullpath, full = some fullpath →
              (Except.ok full : Except Fault _) = .ok (some fullpath) := by
            rintro fullpath rfl
            rfl
          exact mounting_path hfull h
      cases h
      exact .refuse

lemma set_cleared (htidy : Tidy table) {i : Nat}
    (hi : table.findIdx? (·.ops.isNone) = some i) : table.set i cleared = table := by
  obtain ⟨hlt, hnone, -⟩ := findIdx?_eq_some_iff_getElem.mp hi
  rcases htidy table[i] (getElem_mem hlt) with heq | ⟨hused, -⟩
  · rw [← heq, set_getElem_self]
  exact absurd (by simpa using hnone) hused

lemma dfsMount_failed (htidy : Tidy table)
    (h : dfsMount types table env deviceName path filesystemtype = .ok (-1, table')) :
    table' = table := by
  cases mounting_of_dfsMount h with
  | refuse => rfl
  | clear hi => exact set_cleared htidy hi

lemma tidy_set (htidy : Tidy table)
    (hfs : fs = cleared ∨ fs.ops ≠ none ∧ fs.path ≠ none) (i : Nat) : Tidy (table.set i fs) := by
  intro gs hgs
  rcases mem_or_eq_of_mem_set hgs with hgs | rfl
  · exact htidy gs hgs
  exact hfs

lemma tidy_mounting (htidy : Tidy table)
    (h : Mounting table path normal ret table') : Tidy table' := by
  cases h with
  | refuse => exact htidy
  | clear hi => exact tidy_set htidy (.inl rfl) _
  | enter hi hpath hfs hnew => exact tidy_set htidy (.inr ⟨hfs.used, by simp [hfs.path]⟩) _

lemma unique_set (hunique : UniquePaths table)
    (hnew : ∀ p, fs.Mounted p → ∀ gs ∈ table, ¬ gs.Mounted p) (i : Nat) :
    UniquePaths (table.set i fs) := by
  intro j k gs hs p hj hk hgs hhs
  rw [getElem?_set] at hj hk
  by_cases hij : i = j
  · by_cases hik : i = k
    · rw [← hij, ← hik]
    rw [if_pos hij] at hj
    rw [if_neg hik] at hk
    split at hj
    · cases hj
      exact absurd hhs (hnew p hgs hs (mem_of_getElem? hk))
    cases hj
  by_cases hik : i = k
  · rw [if_neg hij] at hj
    rw [if_pos hik] at hk
    split at hk
    · cases hk
      exact absurd hgs (hnew p hhs gs (mem_of_getElem? hj))
    cases hk
  rw [if_neg hij] at hj
  rw [if_neg hik] at hk
  exact hunique j k gs hs p hj hk hgs hhs

lemma not_mounted_cleared (p : List UInt8) : ¬ cleared.Mounted p := fun h => h.used rfl

lemma dfsUnmount_cases {specialfile : List UInt8}
    (h : dfsUnmount table env specialfile = .ok (ret, table')) :
    table' = table ∨ ∃ i, table' = table.set i cleared := by
  unfold dfsUnmount at h
  cases hnorm : dfsNormalizePath env.room none specialfile with
  | error e =>
    rw [hnorm] at h
    cases h
  | ok full =>
    rw [hnorm] at h
    cases full with
    | none =>
      cases h
      exact .inl rfl
    | some fullpath =>
      simp only [Except.bind] at h
      split at h
      · cases h
        exact .inl rfl
      unfold unmountEntry at h
      split at h
      · cases h
      split at h
      · cases h
        exact .inr ⟨_, rfl⟩
      cases h
      exact .inl rfl

end

lemma step_cases {types : List (Option FsOps)} {table table' : List Filesystem} {a : Action}
    (hstep : step types table a = some table') :
    (∃ env deviceName path filesystemtype ret, a = .mount env deviceName path filesystemtype ∧
      Mounting table path
        (fun fullpath => dfsNormalizePath env.room none path = .ok (some fullpath)) ret table') ∨
    table' = table ∨ ∃ i, table' = table.set i cleared := by
  unfold step at hstep
  split at hstep
  · rename_i ret t hrun
    cases hstep
    cases a with
    | mount env deviceName path filesystemtype =>
      exact .inl ⟨env, deviceName, path, filesystemtype, ret, rfl, mounting_of_dfsMount hrun⟩
    | unmount env specialfile => exact .inr (dfsUnmount_cases hrun)
  cases hstep

lemma tidy_step (types : List (Option FsOps)) (table : List Filesystem) (a : Action)
    (table' : List Filesystem) (h : Tidy table) (hstep : step types table a = some table') :
    Tidy table' := by
  rcases step_cases hstep with ⟨env, deviceName, path, type, ret, -, hm⟩ | rfl | ⟨i, rfl⟩
  · exact tidy_mounting h hm
  · exact h
  exact tidy_set h (.inl rfl) i

lemma unique_step (types : List (Option FsOps)) (table : List Filesystem) (a : Action)
    (table' : List Filesystem) (h : UniquePaths table) (hC : Spelled table a)
    (hstep : step types table a = some table') : UniquePaths table' := by
  have hclear : ∀ i, UniquePaths (table.set i cleared) :=
    unique_set h fun p hp => absurd hp (not_mounted_cleared p)
  rcases step_cases hstep with ⟨env, deviceName, path, type, ret, rfl, hm⟩ | rfl | ⟨i, rfl⟩
  · cases hm with
    | refuse => exact h
    | clear hi => exact hclear _
    | @enter i fs fullpath hi hpath hfs hnew =>
      refine unique_set h ?_ _
      intro p hp gs hgs hmounted
      obtain rfl : fullpath = p := Option.some.inj (hfs.path.symm.trans hp.path)
      -- the path is mounted, so it has been looked for as it is
      obtain rfl := hC fullpath hpath ⟨gs, hgs, hmounted⟩
      exact hnew gs hgs hmounted
  · exact h
  exact hclear i

lemma mem_emptyTable {size : Nat} {fs : Filesystem} (h : fs ∈ emptyTable size) : fs = cleared :=
  eq_of_mem_replicate h

/-- **The mount table.** In every table reached by calls of `dfs_mount` and `dfs_unmount`, a
`dfs_mount` that returns `-1` leaves the table as it was. If every `dfs_mount` whose normalised path
is mounted already has been given this path in its normal form, then no two used entries have the
same path. -/
theorem mount_table_unique (types : List (Option FsOps)) (size : Nat) (calls : List Action)
    (table : List Filesystem) (h : exec (step types) (emptyTable size) calls = some table) :
    (Meets (step types) Spelled (emptyTable size) calls → UniquePaths table) ∧
      ∀ env deviceName path filesystemtype table',
        dfsMount types table env deviceName path filesystemtype = .ok (-1, table') →
          table' = table := by
  constructor
  · intro hcalls
    refine inv_of_meets (unique_step types) ?_ hcalls h
    intro i j fs gs p hi hj hfs hgs
    rw [mem_emptyTable (mem_of_getElem? hi)] at hfs
    exact absurd hfs (not_mounted_cleared p)
  have htidy : Tidy table :=
    inv_of_exec (tidy_step types) (fun fs hfs => .inl (mem_emptyTable hfs)) h
  exact fun _ _ _ _ _ => dfsMount_failed htidy

def quiet : Env := ⟨none, true, fun _ => true, true, some 0, true⟩

/-- File systems on `/` and on `/a`. -/
theorem mount_table_unique_again : ∃ fs gs, UniquePaths [fs, gs] ∧
    fs.Mounted [pathChars.sep] ∧ gs.Mounted [pathChars.sep, 0x61] ∧
      exec (step [some ramOps]) (emptyTable 2) [.mount quiet none [pathChars.sep] ramOps.name,
        .mount quiet none [pathChars.sep, 0x61] ramOps.name] = some [fs, gs] := by
  have hrun : exec (step [some ramOps]) (emptyTable 2)
      [.mount quiet none [pathChars.sep] ramOps.name,
        .mount quiet none [pathChars.sep, 0x61] ramOps.name] =
      some [⟨none, some [pathChars.sep], some ramOps, 0⟩,
        ⟨none, some [pathChars.sep, 0x61], some ramOps, 0⟩] := by decide
  refine ⟨_, _, (mount_table_unique [some ramOps] 2 _ _ hrun).1 ?_, by decide, by decide, hrun⟩
  have hmount : ∀ table path, dfsNormalizePath true none path = .ok (some path) →
      Spelled table (.mount quiet none path ramOps.name) :=
    fun _ _ hnormal _ hpath _ => Option.some.inj (Except.ok.inj (hnormal.symm.trans hpath))
  exact ⟨hmount _ _ (by decide), fun _ _ => ⟨hmount _ _ (by decide), fun _ _ => trivial⟩⟩

/-- After mounts on `/` and on `//` two used entries have the path `/`. -/
theorem mount_twice : ∃ fs gs, exec (step [some ramOps]) (emptyTable 2)
      [.mount quiet none [pathChars.sep] ramOps.name,
        .mount quiet none [pathChars.sep, pathChars.sep] ramOps.name] = some [fs, gs] ∧
      fs.Mounted [pathChars.sep] ∧ gs.Mounted [pathChars.sep] :=
  ⟨⟨none, some [pathChars.sep], some ramOps, 0⟩, ⟨none, some [pathChars.sep], some ramOps, 0⟩,
    by decide⟩

end NbIot.Dfs
