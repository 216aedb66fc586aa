import NbIot.Dfs.Ramfs

/-! # The RAM file system: contents

`dfs_ramfs_read`, `dfs_ramfs_write`, `dfs_ramfs_lseek` and `dfs_ramfs_close` of `dfs_ramfs.c`, with
any number of descriptors on any number of files.

* A descriptor has a size of its own, which it takes from the file when it is opened and changes
  when it grows the file. A growth by another descriptor is not seen.
* An access outside the block of the file is a fault, here no result.
* Whether `rt_memheap_realloc` has room, and what is in the new bytes, is given with the call.
* The sum of a position and a count does not wrap, since a buffer and a file are both in an address
  space of 32 bits. `lseek` of `dfs_posix.c` lets no negative offset through.
-/

namespace NbIot.Dfs

open Run List

/-! ## The functions of `dfs_ramfs.c` -/

/-- `dfs_ramfs_read`: the bytes in `buf`, and the descriptor. -/
def dfsRamfsRead (fs : Ramfs) (file : Fd) (count : Nat) : Option (List UInt8 × Fd) :=
  let length := if count < file.size - file.pos then count else file.size - file.pos
  if length > 0 ∧ (fs.data file.data).length < file.pos + length then none
  else
    some (((fs.data file.data).drop file.pos).take length, { file with pos := file.pos + length })

def Ramfs.store (fs : Ramfs) (n : Node) (bytes : List UInt8) : Ramfs :=
  { fs with data := Function.update fs.data n bytes }

/-- `rt_memheap_realloc`, as far as the bytes go. -/
def realloc (bytes : List UInt8) (junk : Nat → UInt8) (size : Nat) : List UInt8 :=
  bytes.take size ++ (List.range (size - bytes.length)).map junk

def memcpy (bytes : List UInt8) (pos : Nat) (buf : List UInt8) : List UInt8 :=
  bytes.take pos ++ buf ++ bytes.drop (pos + buf.length)

/-- The end of `dfs_ramfs_write`, from `if (count > 0)` on. -/
def copyIn (fs : Ramfs) (fd : Fd) (buf : List UInt8) : Option (Nat × Ramfs × Fd) :=
  if buf.length > 0 ∧ (fs.data fd.data).length < fd.pos + buf.length then none
  else
    let fs := if buf.length > 0 then fs.store fd.data (memcpy (fs.data fd.data) fd.pos buf) else fs
    some (buf.length, fs, { fd with pos := fd.pos + buf.length })

/-- `dfs_ramfs_write`: what it returns, the file system and the descriptor. -/
def dfsRamfsWrite (fs : Ramfs) (fd : Fd) (buf : List UInt8) (room : Bool) (junk : Nat → UInt8) :
    Option (Nat × Ramfs × Fd) :=
  if fd.size < buf.length + fd.pos then
    if room then
      copyIn (fs.store fd.data (realloc (fs.data fd.data) junk (fd.pos + buf.length)))
        { fd with size := fd.pos + buf.length } buf
    else some (0, fs, fd)
  else copyIn fs fd buf

def dfsRamfsLseek (file : Fd) (offset : Nat) : Status × Fd :=
  if offset ≤ file.size then (.ok, { file with pos := offset }) else (.eio, file)

/-! ## Runs and the law -/

structure DataState where
  fs : Ramfs
  fds : Nat → Option Fd

inductive DataAction where
  | open (d : Nat) (path : List UInt8) (flags : OpenFlags) (alloc : Option Nat)
  | lseek (d offset : Nat)
  | read (d count : Nat)
  | write (d : Nat) (buf : List UInt8) (room : Bool) (junk : Nat → UInt8)
  | close (d : Nat)

def dataStep (s : DataState) : DataAction → Option DataState
  | .open d path flags alloc =>
    if s.fds d = none then
      let (_, fs, fd) := dfsRamfsOpen s.fs path flags alloc
      some ⟨fs, Function.update s.fds d fd⟩
    else none
  | .lseek d offset =>
    (s.fds d).map fun fd => { s with fds := Function.update s.fds d (dfsRamfsLseek fd offset).2 }
  | .read d count => do
    let fd ← s.fds d
    let (_, fd') ← dfsRamfsRead s.fs fd count
    some { s with fds := Function.update s.fds d fd' }
  | .write d buf room junk => do
    let fd ← s.fds d
    let (_, fs, fd') ← dfsRamfsWrite s.fs fd buf room junk
    some ⟨fs, Function.update s.fds d fd'⟩
  | .close d => some { s with fds := Function.update s.fds d none }

def DataState.start : DataState := ⟨.create, fun _ => none⟩

def Ramfs.Has (fs : Ramfs) : Node → Prop
  | .root => True
  | .file a => a ∈ fs.list

def Untruncated (s : DataState) : DataAction → Prop
  | .open _ _ flags alloc => flags.trunc = false ∧ ∀ a ∈ alloc, a ∉ s.fs.list
  | _ => True

/-- The bytes of `buf` are at `pos`, and all others are as they were. -/
def Patched (bytes : List UInt8) (pos : Nat) (buf bytes' : List UInt8) : Prop :=
  ∀ i, bytes'[i]? = if pos ≤ i ∧ i < pos + buf.length then buf[i - pos]? else bytes[i]?

def ContentLaw (s : DataState) : DataAction → Prop
  | .write d buf room junk =>
    ∀ fd ∈ s.fds d, ∃ n fs fd', dfsRamfsWrite s.fs fd buf room junk = some (n, fs, fd') ∧
      (∀ node, node ≠ fd.data → fs.data node = s.fs.data node) ∧
      if n = buf.length then Patched (s.fs.data fd.data) fd.pos buf (fs.data fd.data)
      else fs.data fd.data = s.fs.data fd.data
  | .read d count =>
    ∀ fd ∈ s.fds d, ∃ bytes fd', dfsRamfsRead s.fs fd count = some (bytes, fd') ∧
      bytes.length ≤ count ∧ ∀ i c, bytes[i]? = some c → (s.fs.data fd.data)[fd.pos + i]? = some c
  | .open _ path flags alloc =>
    ∀ node, s.fs.Has node → (dfsRamfsOpen s.fs path flags alloc).2.1.data node = s.fs.data node
  | _ => True

/-- A write beyond the cached size is also one beyond the end of the file, or reaches it. -/
def ReachesEnd (s : DataState) : DataAction → Prop
  | .write d buf room _ =>
    ∀ fd ∈ s.fds d, room = true → fd.size < buf.length + fd.pos →
      (s.fs.data fd.data).length ≤ fd.pos + buf.length
  | _ => True

instance (s : DataState) (act : DataAction) : Decidable (ReachesEnd s act) := by
  cases act <;> unfold ReachesEnd <;> infer_instance

structure Inside (fs : Ramfs) (fd : Fd) : Prop where
  has : fs.Has fd.data
  pos_le : fd.pos ≤ fd.size
  size_le : fd.size ≤ (fs.data fd.data).length

/-! ## Bytes -/

section

variable {bytes buf : List UInt8} {pos : Nat}

lemma patched_memcpy (h : pos ≤ bytes.length) : Patched bytes pos buf (memcpy bytes pos buf) := by
  intro i
  have hlen : (bytes.take pos).length = pos := length_take_of_le h
  rw [memcpy, append_assoc]
  by_cases hi : i < pos
  · rw [getElem?_append_left (by omega), getElem?_take_of_lt hi, if_neg (by omega)]
  rw [getElem?_append_right (by omega), hlen]
  by_cases hbuf : i - pos < buf.length
  · rw [getElem?_append_left hbuf, if_pos (by omega)]
  rw [getElem?_append_right (by omega), getElem?_drop, if_neg (by omega)]
  congr 1
  omega

lemma patched_cut_iff (h : pos ≤ bytes.length) :
    Patched bytes pos buf (bytes.take pos ++ buf) ↔ bytes.length ≤ pos + buf.length := by
  have hlen : (bytes.take pos).length = pos := length_take_of_le h
  constructor
  · intro hpatch
    -- the byte behind the copy is not there any more
    have hnext := hpatch (pos + buf.length)
    rw [if_neg (by omega), getElem?_eq_none (by rw [length_append, hlen])] at hnext
    exact List.getElem?_eq_none_iff.mp hnext.symm
  intro hle
  have hpatch : Patched bytes pos buf (memcpy bytes pos buf) := patched_memcpy h
  rwa [memcpy, drop_of_length_le hle, append_nil] at hpatch

lemma length_realloc (bytes : List UInt8) (junk : Nat → UInt8) (size : Nat) :
    (realloc bytes junk size).length = size := by
  rw [realloc, length_append, length_take, length_map, length_range]
  omega

lemma memcpy_realloc (h : pos ≤ bytes.length) (junk : Nat → UInt8) :
    memcpy (realloc bytes junk (pos + buf.length)) pos buf = bytes.take pos ++ buf := by
  have hlen := length_realloc bytes junk (pos + buf.length)
  rw [memcpy, drop_of_length_le (by omega), append_nil, realloc,
    take_append_of_le_length (by rw [length_take]; omega), take_take,
    min_eq_left (by omega)]

end

@[simp] lemma data_store_self (fs : Ramfs) (n : Node) (bytes : List UInt8) :
    (fs.store n bytes).data n = bytes := Function.update_self _ _ _

lemma data_store_of_ne {n node : Node} (h : node ≠ n) (fs : Ramfs) (bytes : List UInt8) :
    (fs.store n bytes).data node = fs.data node := Function.update_of_ne h _ _

lemma store_store (fs : Ramfs) (n : Node) (bytes bytes' : List UInt8) :
    (fs.store n bytes).store n bytes' = fs.store n bytes' := by
  unfold Ramfs.store
  rw [Function.update_idem]

lemma store_self (fs : Ramfs) (n : Node) : fs.store n (fs.data n) = fs := by
  unfold Ramfs.store
  rw [Function.update_eq_self]

/-! ## What a call does -/

variable {fs : Ramfs} {buf : List UInt8}

section

variable {fd : Fd}

lemma copyIn_eq (h : fd.pos + buf.length ≤ (fs.data fd.data).length) :
    copyIn fs fd buf = some (buf.length, fs.store fd.data (memcpy (fs.data fd.data) fd.pos buf),
      { fd with pos := fd.pos + buf.length }) := by
  rw [copyIn, if_neg (by omega)]
  by_cases hbuf : buf.length > 0
  · rw [if_pos hbuf]
  obtain rfl : buf = [] := eq_nil_of_length_eq_zero (by omega)
  have hsame : memcpy (fs.data fd.data) fd.pos [] = fs.data fd.data := by simp [memcpy]
  rw [if_neg hbuf, hsame, store_self]

/-- The three ways through `dfs_ramfs_write`. -/
inductive Written (fs : Ramfs) (fd : Fd) (buf : List UInt8) (room : Bool) :
    Nat × Ramfs × Fd → Prop where
  | full (hgrow : fd.size < buf.length + fd.pos) (hroom : room = false) :
      Written fs fd buf room (0, fs, fd)
  | grow (hgrow : fd.size < buf.length + fd.pos) (hroom : room = true) :
      Written fs fd buf room (buf.length, fs.store fd.data ((fs.data fd.data).take fd.pos ++ buf),
        ⟨fd.data, fd.pos + buf.length, fd.pos + buf.length⟩)
  | within (hgrow : ¬ fd.size < buf.length + fd.pos) :
      Written fs fd buf room (buf.length, fs.store fd.data (memcpy (fs.data fd.data) fd.pos buf),
        { fd with pos := fd.pos + buf.length })

lemma written_of_inside (h : Inside fs fd) (buf : List UInt8) (room : Bool) (junk : Nat → UInt8) :
    ∃ r, dfsRamfsWrite fs fd buf room junk = some r ∧ Written fs fd buf room r := by
  have hpos := h.pos_le
  have hsize := h.size_le
  unfold dfsRamfsWrite
  by_cases hgrow : fd.size < buf.length + fd.pos
  · rw [if_pos hgrow]
    cases room with
    | false => exact ⟨_, rfl, .full hgrow rfl⟩
    | true =>
      refine ⟨_, ?_, .grow hgrow rfl⟩
      rw [if_pos rfl, copyIn_eq (by rw [data_store_self, length_realloc])]
      simp only [data_store_self, store_store]
      rw [memcpy_realloc (by omega)]
  rw [if_neg hgrow]
  exact ⟨_, copyIn_eq (by omega), .within hgrow⟩

lemma dfsRamfsRead_eq (h : Inside fs fd) (count : Nat) : dfsRamfsRead fs fd count =
      some (((fs.data fd.data).drop fd.pos).take (min count (fd.size - fd.pos)),
        { fd with pos := fd.pos + min count (fd.size - fd.pos) }) := by
  have hsize := h.size_le
  have hmin : (if count < fd.size - fd.pos then count else fd.size - fd.pos) =
      min count (fd.size - fd.pos) := by
    split <;> omega
  unfold dfsRamfsRead
  simp only [hmin]
  rw [if_neg (by omega)]

lemma has_of_lookup {path : List UInt8} {n : Node} (h : dfsRamfsLookup fs path = some n) :
    fs.Has n := by
  unfold dfsRamfsLookup at h
  split at h
  · cases h
    trivial
  obtain ⟨a, ha, rfl⟩ := Option.map_eq_some_iff.mp h
  exact (find_spec ha).1

lemma inside_opened {n : Node} (h : fs.Has n) (flags : OpenFlags) :
    Inside fs (fs.opened flags n) := by
  refine ⟨h, ?_, le_rfl⟩
  unfold Ramfs.opened
  split
  · exact le_rfl
  exact Nat.zero_le _

lemma open_untruncated {flags : OpenFlags} {alloc : Option Nat} (htrunc : flags.trunc = false)
    (hfree : ∀ a ∈ alloc, a ∉ fs.list) (path : List UInt8) :
    (∀ n, fs.Has n → (dfsRamfsOpen fs path flags alloc).2.1.Has n ∧
      (dfsRamfsOpen fs path flags alloc).2.1.data n = fs.data n) ∧
    ∀ fd ∈ (dfsRamfsOpen fs path flags alloc).2.2,
      Inside (dfsRamfsOpen fs path flags alloc).2.1 fd := by
  have hsame : ∀ fs : Ramfs, ∀ a, fs.truncate flags a = fs := by
    intro fs a
    rw [Ramfs.truncate, htrunc]
    rfl
  have hnothing : (∀ n, fs.Has n → fs.Has n ∧ fs.data n = fs.data n) ∧
      ∀ fd ∈ (none : Option Fd), Inside fs fd := ⟨fun n hn => ⟨hn, rfl⟩, fun fd hfd => by cases hfd⟩
  have hfound : ∀ n, fs.Has n → (∀ n, fs.Has n → fs.Has n ∧ fs.data n = fs.data n) ∧
      ∀ fd ∈ some (fs.opened flags n), Inside fs fd := by
    refine fun n hn => ⟨hnothing.1, fun fd hfd => ?_⟩
    cases hfd
    exact inside_opened hn flags
  unfold dfsRamfsOpen
  simp only [hsame]
  split
  · split
    · exact hnothing
    split
    · exact hnothing
    rename_i n hlook
    exact hfound n (has_of_lookup hlook)
  split
  · exact hnothing
  · rename_i a hlook
    exact hfound _ (has_of_lookup hlook)
  split
  · split
    · exact hnothing
    -- the new entry has an address that none of the others has
    rename_i a
    refine ⟨fun n hn => ?_, fun fd hfd => ?_⟩
    · cases n with
      | root => exact ⟨trivial, data_insert_of_ne (by simp)⟩
      | file b =>
        refine ⟨mem_cons_of_mem a hn, data_insert_of_ne ?_⟩
        rintro heq
        obtain rfl := Node.file.inj heq
        exact hfree b rfl hn
    cases hfd
    exact inside_opened mem_cons_self flags
  exact hnothing

end

/-! ## What it preserves -/

section

variable {s s' : DataState} {act : DataAction} {d : Nat} {fd fd' : Fd} {fs' : Ramfs} {room : Bool}

def AllInside (s : DataState) : Prop := ∀ d, ∀ fd ∈ s.fds d, Inside s.fs fd

lemma AllInside.update (h : AllInside s) (hhas : ∀ n, s.fs.Has n → fs'.Has n)
    (hlen : ∀ n, s.fs.Has n → (s.fs.data n).length ≤ (fs'.data n).length) {o : Option Fd}
    (ho : ∀ fd ∈ o, Inside fs' fd) : AllInside ⟨fs', Function.update s.fds d o⟩ := by
  intro e fd hfd
  change fd ∈ Function.update s.fds d o e at hfd
  by_cases hed : e = d
  · rw [hed, Function.update_self] at hfd
    exact ho fd hfd
  rw [Function.update_of_ne hed] at hfd
  have hin := h e fd hfd
  exact ⟨hhas _ hin.has, hin.pos_le, hin.size_le.trans (hlen _ hin.has)⟩

lemma has_store (fs : Ramfs) (n node : Node) (bytes : List UInt8) :
    (fs.store n bytes).Has node ↔ fs.Has node := by
  cases node <;> exact Iff.rfl

lemma Written.lawful_iff {n : Nat} (hin : Inside fs fd) (h : Written fs fd buf room (n, fs', fd')) :
    (∀ node, node ≠ fd.data → fs'.data node = fs.data node) ∧
    ((if n = buf.length then Patched (fs.data fd.data) fd.pos buf (fs'.data fd.data)
      else fs'.data fd.data = fs.data fd.data) ↔
      (room = true → fd.size < buf.length + fd.pos →
        (fs.data fd.data).length ≤ fd.pos + buf.length)) := by
  have hpos := hin.pos_le.trans hin.size_le
  cases h with
  | full hgrow hroom =>
    have hpos := hin.pos_le
    rw [if_neg (by omega)]
    exact ⟨fun node _ => rfl, iff_of_true rfl fun htrue => by simp [hroom] at htrue⟩
  | grow hgrow hroom =>
    refine ⟨fun node hne => data_store_of_ne hne _ _, ?_⟩
    rw [if_pos rfl, data_store_self, patched_cut_iff hpos]
    exact ⟨fun hle _ _ => hle, fun hall => hall hroom hgrow⟩
  | within hgrow =>
    refine ⟨fun node hne => data_store_of_ne hne _ _, ?_⟩
    rw [if_pos rfl, data_store_self]
    exact iff_of_true (patched_memcpy hpos) fun _ hlt => absurd hlt hgrow

lemma Written.inside {n : Nat} (hin : Inside fs fd)
    (h : Written fs fd buf room (n, fs', fd'))
    (hend : room = true → fd.size < buf.length + fd.pos →
      (fs.data fd.data).length ≤ fd.pos + buf.length) :
    (∀ node, fs.Has node → fs'.Has node) ∧
    (∀ node, (fs.data node).length ≤ (fs'.data node).length) ∧ Inside fs' fd' := by
  have hpos := hin.pos_le
  have hsize := hin.size_le
  have hstore : ∀ bytes, (fs.data fd.data).length ≤ bytes.length → ∀ node,
      (fs.data node).length ≤ ((fs.store fd.data bytes).data node).length := by
    intro bytes hlen node
    by_cases hnode : node = fd.data
    · rwa [hnode, data_store_self]
    rw [data_store_of_ne hnode]
  cases h with
  | full hgrow hroom => exact ⟨fun node hn => hn, fun node => le_rfl, hin⟩
  | grow hgrow hroom =>
    have hlen : ((fs.data fd.data).take fd.pos ++ buf).length = fd.pos + buf.length := by
      rw [length_append, length_take_of_le (by omega)]
    refine ⟨fun node => (has_store fs _ node _).mpr, hstore _ ?_, ?_⟩
    · rw [hlen]
      exact hend hroom hgrow
    refine ⟨(has_store fs _ _ _).mpr hin.has, le_rfl, ?_⟩
    simp only [data_store_self]
    rw [hlen]
  | within hgrow =>
    have hlen : (memcpy (fs.data fd.data) fd.pos buf).length = (fs.data fd.data).length := by
      rw [memcpy, length_append, length_append, length_take_of_le (by omega), length_drop]
      omega
    refine ⟨fun node => (has_store fs _ node _).mpr, hstore _ hlen.ge, ?_⟩
    refine ⟨(has_store fs _ _ _).mpr hin.has, ?_, ?_⟩
    · show fd.pos + buf.length ≤ fd.size
      omega
    simp only [data_store_self]
    rw [hlen]
    exact hsize

lemma allInside_step (hI : AllInside s) (hD : Untruncated s act) (hC : ReachesEnd s act)
    (h : dataStep s act = some s') : AllInside s' := by
  cases act with
  | «open» d path flags alloc =>
    obtain ⟨hold, hnew⟩ := open_untruncated hD.1 hD.2 path
    rw [dataStep] at h
    split at h
    · cases h
      exact hI.update (fun n hn => (hold n hn).1) (fun n hn => by rw [(hold n hn).2]) hnew
    cases h
  | lseek d offset =>
    obtain ⟨fd, hfd, rfl⟩ := Option.map_eq_some_iff.mp h
    have hin := hI d fd hfd
    refine hI.update (fun n hn => hn) (fun n _ => le_rfl) fun fd' hfd' => ?_
    obtain rfl := Option.some.inj hfd'
    unfold dfsRamfsLseek
    split
    · rename_i hle
      exact ⟨hin.has, hle, hin.size_le⟩
    exact hin
  | read d count =>
    obtain ⟨fd, hfd, h⟩ := Option.bind_eq_some_iff.mp h
    have hin := hI d fd hfd
    rw [dfsRamfsRead_eq hin] at h
    cases h
    refine hI.update (fun n hn => hn) (fun n _ => le_rfl) fun fd' hfd' => ?_
    obtain rfl := Option.some.inj hfd'
    have hpos := hin.pos_le
    exact ⟨hin.has, by simp only; omega, hin.size_le⟩
  | close d =>
    cases h
    exact hI.update (fun n hn => hn) (fun n _ => le_rfl) fun fd' hfd' => by cases hfd'
  | write d buf room junk =>
    obtain ⟨fd, hfd, h⟩ := Option.bind_eq_some_iff.mp h
    have hin := hI d fd hfd
    obtain ⟨⟨n, fs', fd'⟩, hr, hwritten⟩ := written_of_inside hin buf room junk
    rw [hr] at h
    cases h
    obtain ⟨hhas, hlen, hin'⟩ := hwritten.inside hin (hC fd hfd)
    refine hI.update hhas (fun n _ => hlen n) fun fd'' hfd'' => ?_
    obtain rfl := Option.some.inj hfd''
    exact hin'

lemma contentLaw_iff (hI : AllInside s) (hD : Untruncated s act) :
    ContentLaw s act ↔ ReachesEnd s act := by
  cases act with
  | «open» d path flags alloc =>
    exact iff_of_true (fun n hn => ((open_untruncated hD.1 hD.2 path).1 n hn).2) trivial
  | lseek d offset => exact Iff.rfl
  | close d => exact Iff.rfl
  | read d count =>
    refine iff_of_true (fun fd hfd => ?_) trivial
    refine ⟨_, _, dfsRamfsRead_eq (hI d fd hfd) count, ?_, fun i c hi => ?_⟩
    · rw [length_take]
      omega
    rw [getElem?_take] at hi
    split at hi
    · rwa [getElem?_drop] at hi
    cases hi
  | write d buf room junk =>
    refine forall₂_congr fun fd hfd => ?_
    have hin := hI d fd hfd
    obtain ⟨⟨n, fs', fd'⟩, hr, hwritten⟩ := written_of_inside hin buf room junk
    obtain ⟨hother, hiff⟩ := hwritten.lawful_iff hin
    constructor
    · rintro ⟨m, gs, gd, hr', -, hlaw⟩
      obtain ⟨rfl, rfl, rfl⟩ : n = m ∧ fs' = gs ∧ fd' = gd := by
        simpa using hr.symm.trans hr'
      exact hiff.mp hlaw
    intro hend
    exact ⟨n, fs', fd', hr, hother, hiff.mpr hend⟩

end

/-- **The contents of the files.** In every interleaving of opens without truncation, seeks, reads,
writes and closes on any number of descriptors: every write patches its file or leaves it alone, and
every read returns bytes of the file, exactly when every write that goes beyond the size in its
descriptor, and has room, reaches the end of the file. -/
theorem contents_lawful_iff (calls : List DataAction)
    (hcalls : Meets dataStep Untruncated .start calls) :
    Meets dataStep ContentLaw .start calls ↔ Meets dataStep ReachesEnd .start calls :=
  meets_iff_of_inv (fun _ _ _ hI hD hC h => allInside_step hI hD hC h)
    (fun _ _ hI hD => contentLaw_iff hI hD) (fun d fd hfd => by cases hfd) hcalls

def twoOpens : List DataAction :=
  [.open 0 (pathOf 'a') { creat := true } (some 0), .open 1 (pathOf 'a') {} none]

theorem contents_lawful_longer :
    ∃ s, exec dataStep .start (twoOpens ++ [.write 0 [1, 2, 3] true fun _ => 0,
        .write 1 [4, 5, 6, 7] true fun _ => 0]) = some s ∧ s.fs.data (.file 0) = [4, 5, 6, 7] ∧
      Meets dataStep ContentLaw .start (twoOpens ++ [.write 0 [1, 2, 3] true fun _ => 0,
        .write 1 [4, 5, 6, 7] true fun _ => 0]) := by
  refine ⟨_, rfl, by decide, (contents_lawful_iff _ ?_).mpr (by decide)⟩
  refine ⟨⟨rfl, by decide⟩, fun s _ => ⟨⟨rfl, by simp⟩, fun s _ => ?_⟩⟩
  exact ⟨trivial, fun s _ => ⟨trivial, fun s _ => trivial⟩⟩

/-- The first descriptor writes three bytes, the second writes one: two of the three are lost. -/
theorem write_cuts_file :
    ∃ s s', exec dataStep .start (twoOpens ++ [.write 0 [1, 2, 3] true fun _ => 0]) = some s ∧
      s.fs.data (.file 0) = [1, 2, 3] ∧ s.fds 1 = some ⟨.file 0, 0, 0⟩ ∧
      dataStep s (.write 1 [4] true fun _ => 0) = some s' ∧ s'.fs.data (.file 0) = [4] ∧
      ¬ ContentLaw s (.write 1 [4] true fun _ => 0) := by
  refine ⟨_, _, rfl, by decide, by decide, rfl, by decide, fun hlaw => ?_⟩
  obtain ⟨n, fs, fd, hwrite, -, hpatch⟩ := hlaw ⟨.file 0, 0, 0⟩ rfl
  cases hwrite
  rw [if_pos (by decide)] at hpatch
  exact absurd (hpatch 1) (by decide)

end NbIot.Dfs
