import NPKernel.AreaLists
import NPKernel.OpenDescriptions
import NPKernel.PagedListings

/-!
# Directory listings

`getdents64` of `src/fs/vfs.c` and `src/syscall/syscall.c`.  A directory is a sequence of
positions: the 64 inodes of the persistent store, or the two dots, the mount point of the
store and the children that the names of the archive give a directory of the initramfs.
A call writes the records from the position of the descriptor on, as far as they fit.
-/

namespace NPKernel

namespace Listings

open BitwiseCrc (Byte)
open GuardedRuns PagedListings

abbrev Name := List Byte

def VFS_NAME_CAPACITY : ℕ := 256

def slash : Byte := 0x2f

/-! ## The children of a directory of the initramfs -/

def relativeName : Name → Name
  | [] => []
  | byte :: rest => if byte = slash then rest else byte :: rest

def firstComponent (relative : Name) (capacity : ℕ) : Option (Name × Bool) :=
  let child := relative.takeWhile (· ≠ slash)
  if child.length = 0 ∨ capacity < child.length + 1 then none
  else some (child, decide (relative[child.length]? = some slash))

def initrdChildFromName (directory archiveName : Name) (capacity : ℕ) : Option (Name × Bool) :=
  let name := relativeName archiveName
  let directoryLength := if directory = [slash] then 0 else directory.length - 1
  if directoryLength ≠ 0 ∧ (name.length ≤ directoryLength ∨
      name.take directoryLength ≠ (directory.drop 1).take directoryLength ∨
      name[directoryLength]? ≠ some slash) then none
  else
    firstComponent (name.drop (directoryLength + if directoryLength ≠ 0 then 1 else 0)) capacity

def initrdChildSeen (archive : List Name) (directory : Name) (limit : ℕ) (child : Name)
    (isDirectory : Bool) : Bool :=
  (archive.take limit).any fun name =>
    initrdChildFromName directory name VFS_NAME_CAPACITY = some (child, isDirectory)

/-- The loop of `initrd_child_at` from the file with number `i` on. -/
def childAtLoop (archive : List Name) (directory : Name) (wanted capacity : ℕ) :
    List Name → ℕ → ℕ → Option (Name × Bool)
  | [], _, _ => none
  | name :: rest, i, ordinal =>
    match initrdChildFromName directory name capacity with
    | none => childAtLoop archive directory wanted capacity rest (i + 1) ordinal
    | some (child, isDirectory) =>
      if initrdChildSeen archive directory i child isDirectory then
        childAtLoop archive directory wanted capacity rest (i + 1) ordinal
      else if ordinal = wanted then some (child, isDirectory)
      else childAtLoop archive directory wanted capacity rest (i + 1) (ordinal + 1)

def initrdChildAt (archive : List Name) (directory : Name) (wanted capacity : ℕ) :
    Option (Name × Bool) :=
  childAtLoop archive directory wanted capacity archive 0 0

def childOf (directory name : Name) : Option (Name × Bool) :=
  initrdChildFromName directory name VFS_NAME_CAPACITY

def children (archive : List Name) (directory : Name) : List (Name × Bool) :=
  firsts [] (archive.filterMap (childOf directory))

section names

variable {archive : List Name} {directory name child path relative : Name} {wanted capacity : ℕ}
  {isDirectory ready : Bool}

theorem initrdChildSeen_iff {limit : ℕ} :
    initrdChildSeen archive directory limit child isDirectory = true ↔
      (child, isDirectory) ∈ (archive.take limit).filterMap (childOf directory) := by
  rw [initrdChildSeen, List.any_eq_true, List.mem_filterMap]
  simp only [decide_eq_true_eq, childOf]

theorem childAtLoop_cons_none (h : childOf directory name = none) (rest : List Name)
    (i ordinal : ℕ) :
    childAtLoop archive directory wanted VFS_NAME_CAPACITY (name :: rest) i ordinal =
      childAtLoop archive directory wanted VFS_NAME_CAPACITY rest (i + 1) ordinal := by
  rw [childAtLoop, show initrdChildFromName directory name VFS_NAME_CAPACITY = none from h]

theorem childAtLoop_cons_some {child : Name × Bool} (h : childOf directory name = some child)
    (rest : List Name) (i ordinal : ℕ) :
    childAtLoop archive directory wanted VFS_NAME_CAPACITY (name :: rest) i ordinal =
      if child ∈ (archive.take i).filterMap (childOf directory) then
        childAtLoop archive directory wanted VFS_NAME_CAPACITY rest (i + 1) ordinal
      else if ordinal = wanted then some child
      else childAtLoop archive directory wanted VFS_NAME_CAPACITY rest (i + 1) (ordinal + 1) := by
  rw [childAtLoop, show initrdChildFromName directory name VFS_NAME_CAPACITY = some child from h]
  simp only [initrdChildSeen_iff]

theorem childAtLoop_eq (rest : List Name) :
    ∀ i ordinal, archive.drop i = rest → ordinal ≤ wanted →
      childAtLoop archive directory wanted VFS_NAME_CAPACITY rest i ordinal =
        (firsts ((archive.take i).filterMap (childOf directory))
          (rest.filterMap (childOf directory)))[wanted - ordinal]? := by
  induction rest with
  | nil =>
    intro i ordinal _ _
    rfl
  | cons name rest ih =>
    intro i ordinal hdrop hordinal
    have hi : i < archive.length := by
      by_contra hge
      rw [List.drop_eq_nil_of_le (Nat.not_lt.1 hge)] at hdrop
      exact List.cons_ne_nil _ _ hdrop.symm
    have hsplit := List.drop_eq_getElem_cons hi
    rw [hdrop, List.cons.injEq] at hsplit
    have htake : archive.take (i + 1) = archive.take i ++ [name] := by
      rw [List.take_succ_eq_append_getElem hi, ← hsplit.1]
    have hnext := ih (i + 1)
    cases hchild : childOf directory name with
    | none =>
      rw [childAtLoop_cons_none hchild, List.filterMap_cons_none hchild,
        hnext ordinal hsplit.2.symm hordinal, htake, List.filterMap_append]
      simp [hchild]
    | some child =>
      -- The next turn has seen this child too, whether or not it is the first time.
      have hseen : ∀ a, a ∈ (archive.take (i + 1)).filterMap (childOf directory) ↔
          a ∈ child :: (archive.take i).filterMap (childOf directory) := by
        intro a
        rw [htake, List.filterMap_append]
        simp [hchild, or_comm]
      rw [childAtLoop_cons_some hchild, List.filterMap_cons_some hchild, firsts]
      by_cases hmem : child ∈ (archive.take i).filterMap (childOf directory)
      · rw [if_pos hmem, if_pos hmem, hnext ordinal hsplit.2.symm hordinal,
          firsts_congr hseen, firsts_congr]
        intro a
        rw [List.mem_cons]
        constructor
        · rintro (rfl | ha)
          · exact hmem
          · exact ha
        · exact Or.inr
      · rw [if_neg hmem, if_neg hmem]
        by_cases heq : ordinal = wanted
        · rw [if_pos heq, heq, Nat.sub_self]
          rfl
        · obtain ⟨k, hk⟩ : ∃ k, wanted = ordinal + k + 1 := ⟨wanted - ordinal - 1, by omega⟩
          rw [if_neg heq, hnext (ordinal + 1) hsplit.2.symm (by omega), firsts_congr hseen,
            show wanted - ordinal = k + 1 by omega, List.getElem?_cons_succ,
            show wanted - (ordinal + 1) = k by omega]

theorem initrdChildAt_eq (archive : List Name) (directory : Name) (wanted : ℕ) :
    initrdChildAt archive directory wanted VFS_NAME_CAPACITY =
      (children archive directory)[wanted]? := by
  rw [initrdChildAt, childAtLoop_eq archive 0 0 rfl (Nat.zero_le _)]
  rfl

/-! ## Positions of a directory -/

inductive Found where
  | done (after : ℕ)
  | unused
  | entry (inode type : ℕ) (name : Name)

/-- A directory, as the loop of `vfs_getdents64` walks through it: the positions before its
bound are those that are not at the end. -/
structure Directory where
  found : ℕ → Found
  bound : ℕ
  ends : ∀ k, bound ≤ k → ∃ after, k ≤ after ∧ found k = .done after
  goes : ∀ k after, found k = .done after → bound ≤ k
  short : ∀ k inode type name, found k = .entry inode type name → name.length < VFS_NAME_CAPACITY

def dot : Name := [0x2e]
def dotDot : Name := [0x2e, 0x2e]
def persist : Name := [0x70, 0x65, 0x72, 0x73, 0x69, 0x73, 0x74]

def persistentFound (inodes : InodeTable) (index : ℕ) : Found :=
  if h : index < 64 then
    if (inodes ⟨index, h⟩).used then .entry (index + 2) 8 (inodes ⟨index, h⟩).name else .unused
  else .done index

/-- The name with a number in a directory of the initramfs, and whether it is a child that
is a directory. -/
def initrdNameAt (archive : List Name) (ready : Bool) (directory : Name) (entry : ℕ) :
    Option (Name × Bool) :=
  if entry = 0 then some (dot, false)
  else if entry = 1 then some (dotDot, false)
  else
    let childIndex := entry - 2
    if directory = [slash] ∧ ready = true then
      if childIndex = 0 then some (persist, true)
      else initrdChildAt archive directory (childIndex - 1) VFS_NAME_CAPACITY
    else initrdChildAt archive directory childIndex VFS_NAME_CAPACITY

def initrdFound (archive : List Name) (ready : Bool) (directory : Name) (entry : ℕ) : Found :=
  match initrdNameAt archive ready directory entry with
  | none => .done (entry + 1)
  | some (name, childDirectory) =>
    .entry (entry + 1) (if entry < 2 ∨ childDirectory = true then 4 else 8) name

def mounts (ready : Bool) (directory : Name) : List (Name × Bool) :=
  if directory = [slash] ∧ ready = true then [(persist, true)] else []

def initrdNames (archive : List Name) (ready : Bool) (directory : Name) : List (Name × Bool) :=
  [(dot, false), (dotDot, false)] ++ (mounts ready directory ++ children archive directory)

theorem initrdNameAt_eq (archive : List Name) (ready : Bool) (directory : Name) (entry : ℕ) :
    initrdNameAt archive ready directory entry = (initrdNames archive ready directory)[entry]? := by
  unfold initrdNameAt initrdNames mounts
  match entry with
  | 0 | 1 => rfl
  | k + 2 =>
    rw [if_neg (by omega), if_neg (by omega)]
    simp only [Nat.add_sub_cancel, List.cons_append, List.nil_append, List.getElem?_cons_succ]
    by_cases hroot : directory = [slash] ∧ ready = true
    · rw [if_pos hroot, if_pos hroot]
      cases k with
      | zero => rfl
      | succ k =>
        rw [if_neg (Nat.succ_ne_zero k), initrdChildAt_eq]
        rfl
    · rw [if_neg hroot, if_neg hroot, initrdChildAt_eq]
      rfl

theorem takeWhile_ne_slash {rest : Name} (h : slash ∉ child) :
    (child ++ slash :: rest).takeWhile (· ≠ slash) = child := by
  rw [List.takeWhile_append_of_pos]
  · simp
  · intro byte hbyte
    simp only [decide_eq_true_eq]
    rintro rfl
    exact h hbyte

theorem firstComponent_directory {below : Name} (h : slash ∉ child) :
    firstComponent (child ++ slash :: below) capacity =
      if child.length = 0 ∨ capacity < child.length + 1 then none else some (child, true) := by
  have hslash : (child ++ slash :: below)[child.length]? = some slash := by simp
  rw [firstComponent, takeWhile_ne_slash h, hslash]
  rfl

theorem firstComponent_file (h : slash ∉ child) :
    firstComponent child capacity =
      if child.length = 0 ∨ capacity < child.length + 1 then none else some (child, false) := by
  have hwhole : child.takeWhile (· ≠ slash) = child := by
    apply List.takeWhile_eq_self_iff.2
    intro byte hbyte
    simp only [decide_eq_true_eq]
    rintro rfl
    exact h hbyte
  have hnone : child[child.length]? = none := by simp
  rw [firstComponent, hwhole, hnone]
  rfl

theorem firstComponent_eq_some :
    firstComponent relative capacity = some (child, isDirectory) ↔
      child ≠ [] ∧ child.length < capacity ∧ slash ∉ child ∧
        if isDirectory = true then ∃ below, relative = child ++ slash :: below
        else relative = child := by
  have hfits : ∀ name : Name, ¬(name.length = 0 ∨ capacity < name.length + 1) ↔
      name ≠ [] ∧ name.length < capacity := by
    intro name
    rw [not_or, List.length_eq_zero_iff, Nat.not_lt, Nat.succ_le_iff]
  constructor
  · intro h
    by_cases hslash : slash ∈ relative
    · obtain ⟨first, below, rfl, hfirst⟩ := List.eq_append_cons_of_mem hslash
      rw [firstComponent_directory hfirst, Option.ite_none_left_eq_some, hfits] at h
      obtain ⟨⟨hne, hlength⟩, ⟨⟩⟩ := h
      exact ⟨hne, hlength, hfirst, below, rfl⟩
    · rw [firstComponent_file hslash, Option.ite_none_left_eq_some, hfits] at h
      obtain ⟨⟨hne, hlength⟩, ⟨⟩⟩ := h
      exact ⟨hne, hlength, hslash, rfl⟩
  · rintro ⟨hne, hlength, hslash, hrelative⟩
    cases isDirectory with
    | false =>
      rw [if_neg Bool.false_ne_true] at hrelative
      rw [hrelative, firstComponent_file hslash, if_neg ((hfits child).2 ⟨hne, hlength⟩)]
    | true =>
      rw [if_pos rfl] at hrelative
      obtain ⟨below, rfl⟩ := hrelative
      rw [firstComponent_directory hslash, if_neg ((hfits child).2 ⟨hne, hlength⟩)]

def Below (path name relative : Name) : Prop :=
  if path = [] then relativeName name = relative else relativeName name = path ++ slash :: relative

theorem below_iff_of_ne_nil (h : path ≠ []) :
    Below path name relative ↔
      ¬((relativeName name).length ≤ path.length ∨
          (relativeName name).take path.length ≠ path ∨
          (relativeName name)[path.length]? ≠ some slash) ∧
        (relativeName name).drop (path.length + 1) = relative := by
  rw [Below, if_neg h]
  constructor
  · intro hname
    rw [hname]
    simp
  · rintro ⟨hstarts, hrest⟩
    simp only [not_or, not_not, Nat.not_le] at hstarts
    obtain ⟨hlength, htake, hslash⟩ := hstarts
    rw [List.getElem?_eq_getElem hlength, Option.some.injEq] at hslash
    rw [← hrest, ← hslash, ← List.drop_eq_getElem_cons hlength]
    calc
      relativeName name =
          (relativeName name).take path.length ++ (relativeName name).drop path.length :=
        (List.take_append_drop _ _).symm
      _ = path ++ (relativeName name).drop path.length := by rw [htake]

theorem childOf_eq_some {child : Name × Bool} :
    childOf (slash :: path) name = some child ↔
      ∃ relative, Below path name relative ∧
        firstComponent relative VFS_NAME_CAPACITY = some child := by
  unfold childOf initrdChildFromName
  by_cases hpath : path = []
  · simp [hpath, Below]
  have hlength : path.length ≠ 0 := mt List.length_eq_zero_iff.1 hpath
  have hroot : slash :: path ≠ [slash] := by simpa using hpath
  simp only [if_neg hroot, List.length_cons, Nat.add_sub_cancel, ne_eq, hlength,
    not_false_eq_true, true_and, List.drop_succ_cons, List.drop_zero, List.take_length,
    if_true, below_iff_of_ne_nil hpath]
  split
  next hstarts => simp [hstarts]
  next hstarts => simp [hstarts]

theorem childOf_short {child : Name × Bool} (h : childOf directory name = some child) :
    child.1.length < VFS_NAME_CAPACITY := by
  unfold childOf initrdChildFromName at h
  dsimp only at h
  split_ifs at h
  all_goals exact (firstComponent_eq_some.1 h).2.1

theorem mem_children {child : Name × Bool} :
    child ∈ children archive directory ↔ ∃ name ∈ archive, childOf directory name = some child := by
  rw [children, mem_firsts, List.mem_filterMap]
  simp

theorem initrdNames_short {child : Name × Bool} (h : child ∈ initrdNames archive ready directory) :
    child.1.length < VFS_NAME_CAPACITY := by
  unfold initrdNames mounts at h
  rcases List.mem_append.1 h with hdots | h
  · rcases List.mem_pair.1 hdots with rfl | rfl
    · decide
    · decide
  · rcases List.mem_append.1 h with hmount | hchild
    · split at hmount
      · rw [List.mem_singleton.1 hmount]
        decide
      · simp at hmount
    · obtain ⟨name, -, hname⟩ := mem_children.1 hchild
      exact childOf_short hname

end names

namespace Directory

def persistent (inodes : InodeTable)
    (named : ∀ i, (inodes i).used = true → (inodes i).name.length < PERSIST_NAME_CAPACITY) :
    Directory where
  found := persistentFound inodes
  bound := 64
  ends := by
    intro k hk
    refine ⟨k, le_refl k, ?_⟩
    rw [persistentFound, dif_neg (Nat.not_lt.2 hk)]
  goes := by
    intro k after hfound
    unfold persistentFound at hfound
    by_contra hk
    rw [dif_pos (Nat.not_le.1 hk)] at hfound
    split at hfound <;> simp at hfound
  short := by
    intro k inode type name hfound
    unfold persistentFound at hfound
    split at hfound
    next hk =>
      split at hfound
      next hused =>
        simp only [Found.entry.injEq] at hfound
        rw [← hfound.2.2]
        exact (named _ hused).trans (by decide)
      · simp at hfound
    · simp at hfound

def initramfs (archive : List Name) (ready : Bool) (directory : Name) : Directory where
  found := initrdFound archive ready directory
  bound := (initrdNames archive ready directory).length
  ends := by
    intro k hk
    refine ⟨k + 1, Nat.le_succ k, ?_⟩
    rw [initrdFound, initrdNameAt_eq, List.getElem?_eq_none hk]
  goes := by
    intro k after hfound
    rw [initrdFound, initrdNameAt_eq] at hfound
    by_contra hk
    rw [List.getElem?_eq_getElem (Nat.not_le.1 hk)] at hfound
    simp at hfound
  short := by
    intro k inode type name hfound
    rw [initrdFound, initrdNameAt_eq] at hfound
    split at hfound
    · simp at hfound
    next hname =>
      simp only [Found.entry.injEq] at hfound
      rw [← hfound.2.2]
      exact initrdNames_short (List.mem_of_getElem? hname)

end Directory

/-! ## Records -/

structure Record where
  inode : ℕ
  offset : ℕ
  recordLength : ℕ
  type : ℕ
  name : Name
  deriving DecidableEq

/-- The header of 19 bytes and the terminated name, rounded up to 8. -/
def recordLength (name : Name) : ℕ := (19 + (name.length + 1) + 7) / 8 * 8

def UINT16_MAX : ℕ := 65535

def littleEndian64 (value : ℕ) : List Byte :=
  littleEndian32 value ++ littleEndian32 (value / 2 ^ 32)

/-- A record in the buffer: the packed header, the name, and zeros. -/
def Record.bytes (record : Record) : List Byte :=
  let used := littleEndian64 record.inode ++ littleEndian64 record.offset ++
    [BitVec.ofNat 8 record.recordLength, BitVec.ofNat 8 (record.recordLength / 256)] ++
    [BitVec.ofNat 8 record.type] ++ record.name
  used ++ List.replicate (record.recordLength - used.length) 0

theorem recordLength_pos (name : Name) : 0 < recordLength name := by
  unfold recordLength
  omega

theorem recordLength_le {name : Name} (h : name.length < VFS_NAME_CAPACITY) :
    recordLength name ≤ UINT16_MAX := by
  unfold recordLength UINT16_MAX
  unfold VFS_NAME_CAPACITY at h
  omega

structure Dirents where
  result : ℤ
  records : List Record
  offset : ℕ

def direntsLoop (d : Directory) (capacity offset written : ℕ) (records : List Record) : Dirents :=
  match hfound : d.found offset with
  | .done after => ⟨written, records, after⟩
  | .unused => direntsLoop d capacity (offset + 1) written records
  | .entry inode type name =>
    if UINT16_MAX < recordLength name then ⟨-22, [], offset + 1⟩
    else if capacity - written < recordLength name then
      if written = 0 then ⟨-22, [], offset + 1⟩ else ⟨written, records, offset⟩
    else
      direntsLoop d capacity (offset + 1) (written + recordLength name)
        (records ++ [⟨inode, offset + 1, recordLength name, type, name⟩])
termination_by d.bound - offset
decreasing_by
  all_goals
    have hlt : offset < d.bound := by
      by_contra hge
      obtain ⟨after, -, hdone⟩ := d.ends offset (Nat.not_lt.1 hge)
      rw [hdone] at hfound
      cases hfound
    omega

namespace Directory

variable (d : Directory)

def recordAt (k : ℕ) : Option Record :=
  match d.found k with
  | .entry inode type name => some ⟨inode, k + 1, recordLength name, type, name⟩
  | _ => none

def left (k : ℕ) : List Record := (List.range' k (d.bound - k)).filterMap d.recordAt

variable {d} {k : ℕ}

theorem lt_bound_of_found {found : Found} (hfound : d.found k = found)
    (h : ∀ after, found ≠ .done after) : k < d.bound := by
  by_contra hge
  obtain ⟨after, -, hdone⟩ := d.ends k (Nat.not_lt.1 hge)
  exact h after (hfound.symm.trans hdone)

theorem left_of_bound_le (h : d.bound ≤ k) : d.left k = [] := by
  rw [left, Nat.sub_eq_zero_of_le h]
  rfl

theorem left_of_lt (h : k < d.bound) : d.left k = (d.recordAt k).toList ++ d.left (k + 1) := by
  rw [left, show d.bound - k = (d.bound - (k + 1)) + 1 by omega, List.range'_succ,
    List.filterMap_cons]
  cases d.recordAt k <;> rfl

theorem left_of_done {after : ℕ} (h : d.found k = .done after) :
    d.left k = [] ∧ d.left after = [] := by
  have hbound := d.goes k after h
  obtain ⟨after', hafter, hdone⟩ := d.ends k hbound
  rw [h, Found.done.injEq] at hdone
  subst hdone
  exact ⟨left_of_bound_le hbound, left_of_bound_le (hbound.trans hafter)⟩

theorem left_of_unused (h : d.found k = .unused) : d.left k = d.left (k + 1) := by
  rw [left_of_lt (lt_bound_of_found h (by simp)), recordAt, h]
  rfl

theorem left_of_entry {inode type : ℕ} {name : Name} (h : d.found k = .entry inode type name) :
    d.left k = ⟨inode, k + 1, recordLength name, type, name⟩ :: d.left (k + 1) := by
  rw [left_of_lt (lt_bound_of_found h (by simp)), recordAt, h]
  rfl

theorem pos_of_left {record : Record} {rest : List Record} (h : d.left k = record :: rest) :
    0 < record.recordLength := by
  have hmem : record ∈ d.left k := h ▸ List.mem_cons_self
  obtain ⟨j, -, hj⟩ := List.mem_filterMap.1 hmem
  unfold recordAt at hj
  split at hj
  · cases hj
    exact recordLength_pos _
  · simp at hj

end Directory

/-! ## What a call takes -/

section loop

variable {d : Directory} {capacity offset : ℕ}

theorem direntsLoop_refused {written : ℕ} {record : Record} {records rest : List Record}
    (hwritten : written = 0) (hleft : d.left offset = record :: rest)
    (hroom : capacity < record.recordLength) :
    (direntsLoop d capacity offset written records).result = -22 ∧
      d.left (direntsLoop d capacity offset written records).offset = rest := by
  fun_induction direntsLoop d capacity offset written records with
  | case1 offset written records after hfound =>
    rw [(Directory.left_of_done hfound).1] at hleft
    cases hleft
  | case2 offset written records hfound ih =>
    rw [Directory.left_of_unused hfound] at hleft
    exact ih hwritten hleft
  | case3 _ _ _ _ _ _ hfound | case4 _ _ _ _ _ hfound =>
    rw [Directory.left_of_entry hfound, List.cons.injEq] at hleft
    exact ⟨rfl, hleft.2⟩
  | case5 => contradiction
  | case6 offset written records inode type name hfound _ hfits =>
    rw [Directory.left_of_entry hfound, List.cons.injEq] at hleft
    rw [← hleft.1] at hroom
    dsimp only at hroom
    omega

theorem direntsLoop_taken {written : ℕ} {records : List Record}
    (hfits : written ≠ 0 ∨ ∀ record rest, d.left offset = record :: rest →
      record.recordLength ≤ capacity) :
    (direntsLoop d capacity offset written records).result =
        (written : ℤ) + ((fitting Record.recordLength (capacity - written)
          (d.left offset)).map Record.recordLength).sum ∧
      (direntsLoop d capacity offset written records).records =
        records ++ fitting Record.recordLength (capacity - written) (d.left offset) ∧
      d.left (direntsLoop d capacity offset written records).offset =
        (d.left offset).drop
          (fitting Record.recordLength (capacity - written) (d.left offset)).length := by
  fun_induction direntsLoop d capacity offset written records with
  | case1 offset written records after hfound =>
    rw [(Directory.left_of_done hfound).1, (Directory.left_of_done hfound).2]
    simp [fitting]
  | case2 offset written records hfound ih =>
    rw [Directory.left_of_unused hfound] at hfits ⊢
    exact ih hfits
  | case3 offset written records inode type name hfound hlong =>
    -- The names of a directory are short, so that only the room in the buffer matters.
    exact absurd (recordLength_le (d.short offset inode type name hfound)) (Nat.not_le.2 hlong)
  | case4 offset records inode type name hfound _ hroom =>
    rw [Directory.left_of_entry hfound] at hfits
    have hle := (hfits.resolve_left (fun h => h rfl)) _ _ rfl
    dsimp only at hle
    omega
  | case5 offset written records inode type name hfound _ hroom hwritten =>
    have hnone : fitting Record.recordLength (capacity - written)
        (⟨inode, offset + 1, recordLength name, type, name⟩ :: d.left (offset + 1)) = [] :=
      fitting_cons_of_lt hroom
    rw [Directory.left_of_entry hfound, hnone]
    simp
  | case6 offset written records inode type name hfound _ hroom ih =>
    have hpos := recordLength_pos name
    have hsome : fitting Record.recordLength (capacity - written)
        (⟨inode, offset + 1, recordLength name, type, name⟩ :: d.left (offset + 1)) =
          ⟨inode, offset + 1, recordLength name, type, name⟩ ::
            fitting Record.recordLength (capacity - written - recordLength name)
              (d.left (offset + 1)) :=
      fitting_cons_of_le (Nat.not_lt.1 hroom)
    obtain ⟨hresult, hrecords, hoffset⟩ := ih (Or.inl (by omega))
    rw [Directory.left_of_entry hfound, hsome, hresult, hrecords, hoffset, Nat.sub_add_eq]
    simp only [List.map_cons, List.sum_cons, List.append_assoc, List.cons_append,
      List.nil_append, List.length_cons, List.drop_succ_cons, and_true]
    push_cast
    ring

end loop

/-! ## The calls -/

structure OpenDirectory where
  used : Bool
  directory : Bool
  persistentDirectory : Bool
  name : Name
  offset : ℕ

/-- The archive, the persistent store, whose names are terminated, and the open
descriptions. -/
structure Tree where
  archive : List Name
  inodes : InodeTable
  named : ∀ i, (inodes i).used = true → (inodes i).name.length < PERSIST_NAME_CAPACITY
  persistentReady : Bool
  files : Fin 64 → OpenDirectory

/-- A call of `getdents64`: the buffer, and the memory at that time. -/
structure DirentsCall where
  answers : Vm.Answers
  objects : Vm.Objects
  memory : Vm.Memory
  address : ℕ
  count : ℕ

namespace DirentsCall

def copiesOut (call : DirentsCall) (records : List Record) : Bool :=
  (Vm.vmmCopyout call.answers call.objects call.memory call.address
    (records.flatMap Record.bytes)).1

def inRange (call : DirentsCall) : Bool := Vm.vmmIsUserRange call.address call.count

end DirentsCall

namespace Tree

def directory (s : Tree) (i : Fin 64) : Directory :=
  if (s.files i).persistentDirectory = true then .persistent s.inodes s.named
  else .initramfs s.archive s.persistentReady (s.files i).name

def setOffset (s : Tree) (i : Fin 64) (offset : ℕ) : Tree :=
  { s with files := Function.update s.files i { s.files i with offset := offset } }

def vfsGetdents64 (s : Tree) (fd capacity : ℕ) : ℤ × List Record × Tree :=
  match descriptorSlot fd with
  | none => (-9, [], s)
  | some i =>
    if !(s.files i).used then (-9, [], s)
    else if !(s.files i).directory then (-20, [], s)
    else
      let dirents := direntsLoop (s.directory i) capacity (s.files i).offset 0 []
      (dirents.result, dirents.records, s.setOffset i dirents.offset)

/-- The call with the handle of its descriptor, if that is open: the result, the records
that reach the user, and what is left behind. -/
def sysGetdents64 (s : Tree) (handle : Option ℕ) (call : DirentsCall) : ℤ × List Record × Tree :=
  match handle with
  | none => (-9, [], s)
  | some handle =>
    if call.count = 0 then (0, [], s)
    else if 4096 < call.count ∨ call.inRange = false then (-14, [], s)
    else
      let (result, records, next) := s.vfsGetdents64 handle call.count
      if result < 0 then (result, [], next)
      else if call.copiesOut records = false then (-14, [], next)
      else (result, records, next)

end Tree

/-! ## The entries of a directory -/

/-- An inode of the persistent store, its mount point, or a file or a directory of the
archive. -/
inductive Entry where
  | inode (i : Fin 64)
  | mount
  | child (name : Name) (isDirectory : Bool)
  deriving DecidableEq

namespace Tree

def nameOf (s : Tree) : Entry → Name
  | .inode i => (s.inodes i).name
  | .mount => persist
  | .child name _ => name

def dots (s : Tree) (i : Fin 64) : List Name :=
  if (s.files i).persistentDirectory = true then [] else [dot, dotDot]

/-- What a directory has in it: the used inodes, or the mount point and the first components
of the paths of the archive from the directory on. -/
def IsEntry (s : Tree) (i : Fin 64) : Entry → Prop
  | .inode j => (s.files i).persistentDirectory = true ∧ (s.inodes j).used = true
  | .mount => (s.files i).persistentDirectory = false ∧ (s.files i).name = [slash] ∧
      s.persistentReady = true
  | .child name isDirectory => (s.files i).persistentDirectory = false ∧ name ≠ [] ∧
      slash ∉ name ∧ ∃ file ∈ s.archive, ∃ relative, Below (s.files i).name.tail file relative ∧
        if isDirectory = true then ∃ below, relative = name ++ slash :: below
        else relative = name

/-- A list of names is the dots and each entry exactly once. -/
def Complete (s : Tree) (i : Fin 64) (names : List Name) : Prop :=
  ∃ rest : List Entry, names = s.dots i ++ rest.map s.nameOf ∧ rest.Nodup ∧
    ∀ entry, entry ∈ rest ↔ s.IsEntry i entry

def entries (s : Tree) (i : Fin 64) : List Entry :=
  if (s.files i).persistentDirectory = true then
    ((List.finRange 64).filter fun j => (s.inodes j).used).map .inode
  else
    (if (s.files i).name = [slash] ∧ s.persistentReady = true then [.mount] else []) ++
      (children s.archive (s.files i).name).map fun child => .child child.1 child.2

def left (s : Tree) (i : Fin 64) : List Record := (s.directory i).left (s.files i).offset

structure NewlyOpened (s : Tree) (i : Fin 64) : Prop where
  used : (s.files i).used = true
  directory : (s.files i).directory = true
  offset : (s.files i).offset = 0
  canonical : (s.files i).persistentDirectory = true ∨ ∃ path, (s.files i).name = slash :: path

end Tree

namespace Directory

theorem left_initramfs_names (archive : List Name) (ready : Bool) (directory : Name) (k : ℕ) :
    ((initramfs archive ready directory).left k).map Record.name =
      ((initrdNames archive ready directory).drop k).map Prod.fst := by
  induction hn : (initramfs archive ready directory).bound - k generalizing k with
  | zero =>
    have hbound := Nat.sub_eq_zero_iff_le.1 hn
    rw [left_of_bound_le hbound, List.drop_eq_nil_of_le hbound]
    rfl
  | succ n ih =>
    have hk : k < (initrdNames archive ready directory).length :=
      Nat.lt_of_sub_eq_succ hn
    have hfound : (initramfs archive ready directory).found k =
        initrdFound archive ready directory k := rfl
    rw [initrdFound, initrdNameAt_eq, List.getElem?_eq_getElem hk] at hfound
    rw [left_of_entry hfound, List.drop_eq_getElem_cons hk, List.map_cons, List.map_cons,
      ih (k + 1) (by omega)]
    rfl

theorem left_persistent_names (inodes : InodeTable)
    (named : ∀ i, (inodes i).used = true → (inodes i).name.length < PERSIST_NAME_CAPACITY) :
    ((persistent inodes named).left 0).map Record.name =
      ((List.finRange 64).filter fun j => (inodes j).used).map fun j => (inodes j).name := by
  have hrange : List.range' 0 64 = (List.finRange 64).map Fin.val := by decide
  have hrecord : ∀ j : Fin 64, ((persistent inodes named).recordAt j.val).map Record.name =
      if (inodes j).used = true then some (inodes j).name else none := by
    intro j
    have hfound : (persistent inodes named).found j.val = persistentFound inodes j.val := rfl
    rw [recordAt, hfound, persistentFound, dif_pos j.isLt]
    by_cases hused : (inodes j).used = true
    · rw [if_pos hused, if_pos hused]
      rfl
    · rw [if_neg hused, if_neg hused]
      rfl
  have hbound : (persistent inodes named).bound - 0 = 64 := rfl
  rw [left, hbound, hrange, List.filterMap_map, List.map_filterMap]
  simp only [Function.comp_def, hrecord]
  rw [← List.filterMap_eq_map, List.filterMap_filter]
  rfl

end Directory

namespace Tree

variable {s : Tree} {i : Fin 64}

theorem left_names (h : s.NewlyOpened i) :
    (s.left i).map Record.name = s.dots i ++ (s.entries i).map s.nameOf := by
  rw [left, h.offset, directory, dots, entries]
  by_cases hpersistent : (s.files i).persistentDirectory = true
  · rw [if_pos hpersistent, if_pos hpersistent, if_pos hpersistent,
      Directory.left_persistent_names, List.map_map]
    rfl
  rw [if_neg hpersistent, if_neg hpersistent, if_neg hpersistent,
    Directory.left_initramfs_names, List.drop_zero, initrdNames, mounts, List.map_append,
    List.map_append, List.map_append, List.map_map]
  congr 1
  congr 1
  split <;> rfl

theorem nodup_entries : (s.entries i).Nodup := by
  rw [entries]
  split
  · apply List.Nodup.map
    · intro a b hab
      simpa using hab
    · exact (List.nodup_finRange 64).filter _
  · apply List.Nodup.append
    · split
      · exact List.nodup_singleton _
      · exact List.nodup_nil
    · apply List.Nodup.map
      · intro a b hab
        simp only [Entry.child.injEq] at hab
        exact Prod.ext hab.1 hab.2
      · exact nodup_firsts
    · intro entry hmount hchild
      obtain ⟨child, -, rfl⟩ := List.mem_map.1 hchild
      split at hmount <;> simp at hmount

theorem mem_entries (h : s.NewlyOpened i) {entry : Entry} :
    entry ∈ s.entries i ↔ s.IsEntry i entry ∧ (s.nameOf entry).length < VFS_NAME_CAPACITY := by
  rw [entries]
  by_cases hpersistent : (s.files i).persistentDirectory = true
  · rw [if_pos hpersistent]
    cases entry with
    | inode j =>
      simp only [List.mem_map, List.mem_filter, List.mem_finRange, true_and, Entry.inode.injEq,
        exists_eq_right, IsEntry, hpersistent, nameOf]
      constructor
      · intro hused
        exact ⟨hused, (s.named j hused).trans (by decide)⟩
      · exact And.left
    | mount | child => simp [IsEntry, hpersistent]
  · rw [if_neg hpersistent]
    obtain ⟨path, hpath⟩ := h.canonical.resolve_left hpersistent
    rw [Bool.not_eq_true] at hpersistent
    cases entry with
    | inode j =>
      simp only [List.mem_append, List.mem_map, IsEntry, hpersistent]
      split <;> simp
    | mount =>
      have hshort : persist.length < VFS_NAME_CAPACITY := by decide
      simp only [List.mem_append, List.mem_map, IsEntry, hpersistent, nameOf, hshort]
      split
      next hroot => simp [hroot]
      next hroot => simpa using hroot
    | child name isDirectory =>
      have hmount : Entry.child name isDirectory ∉
          (if (s.files i).name = [slash] ∧ s.persistentReady = true then [Entry.mount]
            else []) := by
        split <;> simp
      have hchild : Entry.child name isDirectory ∈
          (children s.archive (s.files i).name).map (fun child => .child child.1 child.2) ↔
            (name, isDirectory) ∈ children s.archive (s.files i).name := by
        rw [List.mem_map]
        constructor
        · rintro ⟨child, hmem, heq⟩
          simp only [Entry.child.injEq] at heq
          rwa [← heq.1, ← heq.2]
        · intro hmem
          exact ⟨_, hmem, rfl⟩
      rw [List.mem_append, or_iff_right hmount, hchild, mem_children, hpath]
      simp only [childOf_eq_some, firstComponent_eq_some, IsEntry, hpersistent, hpath,
        List.tail_cons, nameOf, true_and]
      constructor
      · rintro ⟨file, hfile, relative, hbelow, hne, hlength, hslash, hcomponent⟩
        exact ⟨⟨hne, hslash, file, hfile, relative, hbelow, hcomponent⟩, hlength⟩
      · rintro ⟨⟨hne, hslash, file, hfile, relative, hbelow, hcomponent⟩, hlength⟩
        exact ⟨file, hfile, relative, hbelow, hne, hlength, hslash, hcomponent⟩

/-! ## Runs of calls -/

def step (i : Fin 64) (s : Tree) (call : DirentsCall) : Option Tree :=
  some (s.sysGetdents64 (some (descriptorNumber i)) call).2.2

def results (i : Fin 64) (s : Tree) (call : DirentsCall) : List ℤ :=
  [(s.sysGetdents64 (some (descriptorNumber i)) call).1]

def handed (i : Fin 64) (s : Tree) (call : DirentsCall) : List Record :=
  (s.sysGetdents64 (some (descriptorNumber i)) call).2.1

/-- The calls go on until one returns 0. -/
def ToEnd (results : List ℤ) : Prop := ∃ earlier, results = earlier ++ [0] ∧ 0 ∉ earlier

def Refused (call : DirentsCall) : Prop :=
  call.count ≠ 0 ∧ (4096 < call.count ∨ call.inRange = false)

/-- A call whose buffer is too small for the next record fails and does not skip it. -/
def NotSkipped (i : Fin 64) (s : Tree) (call : DirentsCall) : Prop :=
  ∀ record rest, s.left i = record :: rest → call.count < record.recordLength →
    (∀ result ∈ s.results i call, result < 0) ∧
      ∀ next, s.step i call = some next → next.left i = record :: rest

/-- While records are left, a call that is not refused has room for the next one, and those
that fit into its buffer can be copied out. -/
def Room (i : Fin 64) (s : Tree) (call : DirentsCall) : Prop :=
  ∀ record rest, s.left i = record :: rest → Refused call ∨
    record.recordLength ≤ call.count ∧
      call.copiesOut (fitting Record.recordLength call.count (s.left i)) = true

def Listing (i : Fin 64) (s : Tree) : Prop :=
  (s.files i).used = true ∧ (s.files i).directory = true

theorem left_setOffset (offset : ℕ) :
    (s.setOffset i offset).left i = (s.directory i).left offset := by
  simp only [left, directory, setOffset, Function.update_self]

section calls

variable {call : DirentsCall}

theorem vfsGetdents64_eq (h : Listing i s) (capacity : ℕ) :
    s.vfsGetdents64 (descriptorNumber i) capacity =
      ((direntsLoop (s.directory i) capacity (s.files i).offset 0 []).result,
        (direntsLoop (s.directory i) capacity (s.files i).offset 0 []).records,
        s.setOffset i (direntsLoop (s.directory i) capacity (s.files i).offset 0 []).offset) := by
  rw [vfsGetdents64, Descriptors.Files.descriptorSlot_number]
  simp [h.1, h.2]

theorem sysGetdents64_idle (h : call.count = 0 ∨ Refused call) :
    s.sysGetdents64 (some (descriptorNumber i)) call =
      (if call.count = 0 then 0 else -14, [], s) := by
  unfold sysGetdents64
  dsimp only
  rcases h with h | ⟨hcount, hrange⟩
  · rw [if_pos h, if_pos h]
  · rw [if_neg hcount, if_neg hcount, if_pos hrange]

theorem sysGetdents64_small (hlisting : Listing i s) (hcount : call.count ≠ 0)
    (hallowed : ¬Refused call) {record : Record} {rest : List Record}
    (hleft : s.left i = record :: rest) (hsmall : call.count < record.recordLength) :
    (s.sysGetdents64 (some (descriptorNumber i)) call).1 = -22 ∧
      (s.sysGetdents64 (some (descriptorNumber i)) call).2.1 = [] ∧
      (s.sysGetdents64 (some (descriptorNumber i)) call).2.2.left i = rest := by
  obtain ⟨hresult, hafter⟩ := direntsLoop_refused rfl hleft hsmall
  have hrange : ¬(4096 < call.count ∨ call.inRange = false) := fun h => hallowed ⟨hcount, h⟩
  unfold sysGetdents64
  dsimp only
  rw [if_neg hcount, if_neg hrange, vfsGetdents64_eq hlisting]
  dsimp only
  rw [hresult, if_pos (by decide), left_setOffset]
  exact ⟨rfl, rfl, hafter⟩

theorem sysGetdents64_taken (hlisting : Listing i s) (hcount : call.count ≠ 0)
    (hallowed : ¬Refused call)
    (hfits : ∀ record rest, s.left i = record :: rest → record.recordLength ≤ call.count)
    {taken : List Record} (htaken : fitting Record.recordLength call.count (s.left i) = taken) :
    ∃ next : Tree, next.left i = (s.left i).drop taken.length ∧
      s.sysGetdents64 (some (descriptorNumber i)) call =
        if call.copiesOut taken = true then
          (((taken.map Record.recordLength).sum : ℤ), taken, next)
        else (-14, [], next) := by
  obtain ⟨hresult, hrecords, hafter⟩ := @direntsLoop_taken (s.directory i) call.count
    (s.files i).offset 0 [] (Or.inr hfits)
  rw [Nat.sub_zero] at hresult hrecords hafter
  rw [left] at htaken ⊢
  rw [htaken] at hresult hrecords hafter
  refine ⟨s.setOffset i _, (left_setOffset _).trans hafter, ?_⟩
  have hrange : ¬(4096 < call.count ∨ call.inRange = false) := fun h => hallowed ⟨hcount, h⟩
  have hpos : ¬((taken.map Record.recordLength).sum : ℤ) < 0 := by omega
  unfold sysGetdents64
  dsimp only
  rw [if_neg hcount, if_neg hrange, vfsGetdents64_eq hlisting]
  dsimp only
  rw [hresult, hrecords, Nat.cast_zero, zero_add, List.nil_append, if_neg hpos]
  cases call.copiesOut taken <;> rfl

theorem Listing.step (h : Listing i s) {next : Tree} (hstep : s.step i call = some next) :
    Listing i next := by
  cases hstep
  unfold sysGetdents64
  dsimp only
  rw [vfsGetdents64_eq h]
  dsimp only
  have hnext : ∀ offset, Listing i (s.setOffset i offset) := by
    intro offset
    simpa [Listing, setOffset] using h
  split_ifs <;> first | exact h | exact hnext _

inductive Outcome (i : Fin 64) (s : Tree) (call : DirentsCall) : Prop where
  | idle (hidle : call.count = 0 ∨ Refused call)
      (hcall : s.sysGetdents64 (some (descriptorNumber i)) call =
        (if call.count = 0 then 0 else -14, [], s))
  | small (hcount : call.count ≠ 0) (hallowed : ¬Refused call) (record : Record)
      (rest : List Record) (hleft : s.left i = record :: rest)
      (hsmall : call.count < record.recordLength)
      (hresult : (s.sysGetdents64 (some (descriptorNumber i)) call).1 = -22)
      (hhanded : (s.sysGetdents64 (some (descriptorNumber i)) call).2.1 = [])
      (hrest : (s.sysGetdents64 (some (descriptorNumber i)) call).2.2.left i = rest)
  | taken (hcount : call.count ≠ 0) (hallowed : ¬Refused call) (next : Tree)
      (hfits : ∀ record rest, s.left i = record :: rest → record.recordLength ≤ call.count)
      (hrest : fitting Record.recordLength call.count (s.left i) ++ next.left i = s.left i)
      (hcall : s.sysGetdents64 (some (descriptorNumber i)) call =
        if call.copiesOut (fitting Record.recordLength call.count (s.left i)) = true then
          ((((fitting Record.recordLength call.count (s.left i)).map Record.recordLength).sum : ℤ),
            fitting Record.recordLength call.count (s.left i), next)
        else (-14, [], next))

theorem outcome (h : Listing i s) (call : DirentsCall) : Outcome i s call := by
  by_cases hidle : call.count = 0 ∨ Refused call
  · exact .idle hidle (sysGetdents64_idle hidle)
  obtain ⟨hcount, hallowed⟩ := not_or.1 hidle
  by_cases hfits : ∀ record rest, s.left i = record :: rest → record.recordLength ≤ call.count
  · obtain ⟨next, hnext, hcall⟩ := sysGetdents64_taken h hcount hallowed hfits rfl
    have hsplit := fitting_append_drop Record.recordLength call.count (s.left i)
    rw [← hnext] at hsplit
    exact .taken hcount hallowed next hfits hsplit hcall
  · push Not at hfits
    obtain ⟨record, rest, hleft, hsmall⟩ := hfits
    obtain ⟨hresult, hhanded, hrest⟩ :=
      sysGetdents64_small h hcount hallowed hleft hsmall
    exact .small hcount hallowed record rest hleft hsmall hresult hhanded hrest

theorem handed_left_le (h : Listing i s) {next : Tree} (hstep : s.step i call = some next) :
    (s.handed i call).length + (next.left i).length ≤ (s.left i).length := by
  cases hstep
  unfold handed
  cases outcome h call with
  | idle hidle hcall => simp [hcall]
  | small hcount hallowed record rest hleft hsmall hresult hhanded hrest =>
    rw [hhanded, hrest, hleft]
    simp
  | taken hcount hallowed next hfits hrest hcall =>
    have hlength := congrArg List.length hrest
    rw [List.length_append] at hlength
    rw [hcall]
    split
    · exact hlength.le
    · simp only [List.length_nil]
      omega

theorem Room.handed_left (hroom : Room i s call) (h : Listing i s) {next : Tree}
    (hstep : s.step i call = some next) : s.left i = s.handed i call ++ next.left i := by
  cases hstep
  unfold handed
  cases outcome h call with
  | idle hidle hcall => simp [hcall]
  | small hcount hallowed record rest hleft hsmall hresult hhanded hrest =>
    rcases hroom record rest hleft with hrefused | ⟨hfits, -⟩
    · exact absurd hrefused hallowed
    · omega
  | taken hcount hallowed next hfits hrest hcall =>
    cases hleft : s.left i with
    | nil =>
      rw [hleft] at hrest hcall
      obtain ⟨-, hnext⟩ := List.append_eq_nil_iff.1 hrest
      rw [hcall]
      split <;> simp [fitting, hnext]
    | cons record rest =>
      rcases hroom record rest hleft with hrefused | ⟨-, hcopied⟩
      · exact absurd hrefused hallowed
      · rw [hcall, if_pos hcopied, hrest, hleft]

theorem Room.left_eq_nil (hroom : Room i s call) (h : Listing i s)
    (hzero : (s.sysGetdents64 (some (descriptorNumber i)) call).1 = 0) : s.left i = [] := by
  cases hleft : s.left i with
  | nil => rfl
  | cons record rest =>
    exfalso
    have hpos := Directory.pos_of_left hleft
    cases outcome h call with
    | idle hidle hcall =>
      rcases hroom record rest hleft with hrefused | ⟨hfits, -⟩
      · rw [hcall] at hzero
        simp [hrefused.1] at hzero
      · rw [hcall] at hzero
        simp [(hpos.trans_le hfits).ne'] at hzero
    | small hcount hallowed record' rest' hleft' hsmall hresult hhanded hrest =>
      rw [hresult] at hzero
      simp at hzero
    | taken hcount hallowed next hfits hrest hcall =>
      rcases hroom record rest hleft with hrefused | ⟨hfit, hcopied⟩
      · exact hallowed hrefused
      · rw [hcall, if_pos hcopied, hleft, fitting_cons_of_le hfit] at hzero
        simp only [List.map_cons, List.sum_cons] at hzero
        omega

theorem Room.notSkipped (hroom : Room i s call) : NotSkipped i s call := by
  intro record rest hleft hsmall
  rcases hroom record rest hleft with hrefused | ⟨hfits, -⟩
  · have hcall := @sysGetdents64_idle s i call (Or.inr hrefused)
    constructor
    · intro result hresult
      rw [List.mem_singleton.1 hresult, hcall, if_neg hrefused.1]
      exact Int.negSucc_lt_zero 13
    · intro next hstep
      rw [← Option.some.inj hstep, hcall, hleft]
  · omega

theorem NotSkipped.room (hskip : NotSkipped i s call) (h : Listing i s)
    (hlossless : ∀ next, s.step i call = some next →
      (s.handed i call).length + (next.left i).length = (s.left i).length) : Room i s call := by
  intro record rest hleft
  have hlength := hlossless _ rfl
  cases outcome h call with
  | idle hidle hcall =>
    rcases hidle with hzero | hrefused
    · have hpos := Directory.pos_of_left hleft
      have hfails := (hskip record rest hleft (by omega)).1 _ (List.mem_singleton.2 rfl)
      rw [hcall, if_pos hzero] at hfails
      exact absurd hfails (lt_irrefl 0)
    · exact Or.inl hrefused
  | small hcount hallowed record' rest' hleft' hsmall hresult hhanded hrest =>
    rw [hleft, List.cons.injEq] at hleft'
    have hkept := (hskip record rest hleft (hleft'.1 ▸ hsmall)).2 _ rfl
    rw [hrest, ← hleft'.2] at hkept
    exact absurd (congrArg List.length hkept) (by simp)
  | taken hcount hallowed next hfits hrest hcall =>
    have hfit := hfits record rest hleft
    apply Or.inr
    constructor
    · exact hfit
    · by_contra hcopied
      have hsplit := congrArg List.length hrest
      unfold handed at hlength
      rw [hcall, if_neg hcopied] at hlength
      rw [List.length_append, hleft, fitting_cons_of_le hfit] at hsplit
      simp only [List.length_nil, List.length_cons, hleft] at hlength hsplit
      omega

end calls

/-! ## Complete listings -/

section listings

variable {calls : List DirentsCall} {last : Tree}

theorem ToEnd.tail {result next : ℤ} {rest : List ℤ} (h : ToEnd (result :: next :: rest)) :
    ToEnd (next :: rest) := by
  obtain ⟨earlier, hresults, hzero⟩ := h
  cases earlier with
  | nil => simp at hresults
  | cons first earlier =>
    rw [List.cons_append, List.cons.injEq] at hresults
    refine ⟨earlier, hresults.2, ?_⟩
    intro hmem
    exact hzero (List.mem_cons_of_mem first hmem)

theorem left_eq_nil_of_toEnd (h : Listing i s) (hroom : Guarded (step i) (Room i) s calls)
    (hend : ToEnd (observations (step i) (results i) s calls))
    (hrun : run (step i) s calls = some last) : last.left i = [] := by
  induction calls generalizing s with
  | nil =>
    obtain ⟨earlier, hresults, -⟩ := hend
    simp [observations] at hresults
  | cons call calls ih =>
    obtain ⟨next, hnext, hrest⟩ := run_cons_eq_some hrun
    simp only [observations, hnext] at hend
    cases calls with
    | nil =>
      obtain rfl : next = last := by simpa using hrest
      obtain ⟨earlier, hresults, -⟩ := hend
      have hzero : (s.sysGetdents64 (some (descriptorNumber i)) call).1 = 0 := by
        have hlast := congrArg List.getLast? hresults
        simpa [observations, results] using hlast
      have hleft := hroom.1.handed_left h hnext
      rw [hroom.1.left_eq_nil h hzero] at hleft
      exact (List.append_eq_nil_iff.1 hleft.symm).2
    | cons call' calls =>
      apply ih (h.step hnext) (hroom.tail hnext) _ hrest
      exact ToEnd.tail hend

/-- A listing read to its end is complete, and no call skips a record, exactly when every
name fits into `VFS_NAME_CAPACITY` and every call that is made while records are left, and
is not refused for its buffer, has room for the next one and can copy what fits. -/
theorem listing_complete_iff (s : Tree) (i : Fin 64) (calls : List DirentsCall)
    (hopened : s.NewlyOpened i) (hend : ToEnd (observations (step i) (results i) s calls)) :
    (s.Complete i ((observations (step i) (handed i) s calls).map Record.name) ∧
        Guarded (step i) (NotSkipped i) s calls) ↔
      (∀ entry, s.IsEntry i entry → (s.nameOf entry).length < VFS_NAME_CAPACITY) ∧
        Guarded (step i) (Room i) s calls := by
  have hlisting : Listing i s := ⟨hopened.used, hopened.directory⟩
  have hkeeps : ∀ s call next, Listing i s → step i s call = some next → Listing i next :=
    fun _ _ _ h hstep => h.step hstep
  obtain ⟨last, hrun, -⟩ : ∃ last, run (step i) s calls = some last ∧ True :=
    total_run (fun _ _ _ _ => ⟨_, rfl, trivial⟩) trivial
      (Guarded.of_forall fun _ _ _ => trivial : Guarded (step i) (fun _ _ => True) s calls)
  constructor
  · rintro ⟨⟨rest, hnames, hnodup, hrest⟩, hskipped⟩
    have hsteps : ∀ s call next, Listing i s → step i s call = some next →
        (handed i s call).length + (left next i).length ≤ (left s i).length :=
      fun _ _ _ h hstep => handed_left_le h hstep
    have hle : (observations (step i) (handed i) s calls).length + (last.left i).length ≤
        (s.left i).length := handed_length_le hkeeps hsteps hlisting hrun
    have hhanded := congrArg List.length hnames
    have hleft := congrArg List.length (left_names hopened)
    simp only [List.length_map, List.length_append] at hhanded hleft
    have hsub : s.entries i ⊆ rest := by
      intro entry hentry
      exact (hrest entry).2 ((mem_entries hopened).1 hentry).1
    have hsubperm := List.subperm_of_subset nodup_entries hsub
    have hperm := hsubperm.perm_of_length_le (by omega)
    have hentries := hperm.length_eq
    constructor
    · intro entry hentry
      exact ((mem_entries hopened).1 (hperm.mem_iff.2 ((hrest entry).2 hentry))).2
    · have hall : (s.left i).length ≤ (observations (step i) (handed i) s calls).length := by
        omega
      have hlossless := lossless_of_length hkeeps hsteps hlisting hrun hall
      apply (hskipped.and hlossless).of_invariant hkeeps _ hlisting
      intro state call hstate hboth
      exact hboth.1.room hstate hboth.2
  · rintro ⟨hshort, hroom⟩
    constructor
    · have hguard : Guarded (step i) (fun s call => Listing i s ∧ Room i s call) s calls :=
        hroom.of_invariant hkeeps (fun _ _ h hr => ⟨h, hr⟩) hlisting
      have hall := handed_append_left (fun _ _ _ h hstep => h.2.handed_left h.1 hstep) hguard hrun
      rw [left_eq_nil_of_toEnd hlisting hroom hend hrun, List.append_nil] at hall
      refine ⟨s.entries i, ?_, nodup_entries, ?_⟩
      · rw [← hall, left_names hopened]
      · intro entry
        rw [mem_entries hopened]
        constructor
        · exact And.left
        · intro hentry
          exact ⟨hentry, hshort entry hentry⟩
    · exact hroom.mono fun _ _ hr => hr.notSkipped

def sampleMemory : Vm.Memory :=
  { frames := Vm.sampleBoot.frames
    process :=
      { Vm.emptyProcess 2 (.table 1 fun _ => .absent) with
        vmas := [Vm.Vma.plain Vm.VM_USER_MMAP_BASE Vm.NPK_PAGE_SIZE
          (Vm.NPK_PROT_READ ||| Vm.NPK_PROT_WRITE)
          (Vm.NPK_MAP_PRIVATE ||| Vm.NPK_MAP_ANONYMOUS)] } }

def sampleCall (count : ℕ) : DirentsCall where
  answers := Vm.sampleAnswers
  objects := fun _ => none
  memory := sampleMemory
  address := Vm.VM_USER_MMAP_BASE
  count := count

/-- One persistent file, and descriptors of the directory of the persistent store and of the
root, which has nothing in it but its dots. -/
def sampleTree : Tree where
  archive := []
  inodes := Function.update (fun _ => Inode.zero) 3 { Inode.zero with used := true, name := [0x61] }
  named := by decide
  persistentReady := false
  files := fun i => ⟨true, true, i = 0, [slash], 0⟩

/-- Buffers that are too small for a record run through the directory without a name. -/
theorem small_buffers_skip_records :
    ¬∀ (s : Tree) (i : Fin 64) (calls : List DirentsCall), s.NewlyOpened i →
      ToEnd (observations (step i) (results i) s calls) →
        s.Complete i ((observations (step i) (handed i) s calls).map Record.name) ∧
          Guarded (step i) (NotSkipped i) s calls := by
  intro hall
  have hresults : observations (step 1) (results 1) sampleTree
      [sampleCall 8, sampleCall 8, sampleCall 8] = [-22, -22] ++ [0] := by decide +kernel
  have hhanded : observations (step 1) (handed 1) sampleTree
      [sampleCall 8, sampleCall 8, sampleCall 8] = [] := by decide +kernel
  obtain ⟨⟨rest, hnames, -⟩, -⟩ := hall sampleTree 1 [sampleCall 8, sampleCall 8, sampleCall 8]
    ⟨rfl, rfl, rfl, Or.inr ⟨[], rfl⟩⟩ ⟨[-22, -22], hresults, by decide⟩
  rw [hhanded] at hnames
  exact List.cons_ne_nil _ _ hnames.symm

theorem listing_complete_iff_sample :
    ToEnd (observations (step 0) (results 0) sampleTree [sampleCall 24, sampleCall 24]) ∧
      sampleTree.Complete 0 ((observations (step 0) (handed 0) sampleTree
        [sampleCall 24, sampleCall 24]).map Record.name) := by
  obtain ⟨hresults, hleft, hcopied, hlast⟩ :
      observations (step 0) (results 0) sampleTree [sampleCall 24, sampleCall 24] = [24] ++ [0] ∧
      sampleTree.left 0 = [⟨5, 4, 24, 8, [0x61]⟩] ∧
      (sampleCall 24).copiesOut (fitting Record.recordLength 24 (sampleTree.left 0)) = true ∧
      (sampleTree.sysGetdents64 (some (descriptorNumber 0)) (sampleCall 24)).2.2.left 0 = [] := by
    decide +kernel
  have hend : ToEnd (observations (step 0) (results 0) sampleTree [sampleCall 24, sampleCall 24]) :=
    ⟨[24], hresults, by decide⟩
  refine ⟨hend, ?_⟩
  apply ((listing_complete_iff sampleTree 0 [sampleCall 24, sampleCall 24]
    ⟨rfl, rfl, rfl, Or.inl rfl⟩ hend).2 _).1
  constructor
  · intro entry hentry
    cases entry with
    | inode j => exact (sampleTree.named j hentry.2).trans (by decide)
    | mount | child => exact absurd hentry.1 (by decide)
  · apply guarded_cons _ rfl
    · apply guarded_cons _ rfl
      · trivial
      · intro record rest hrecord
        rw [hlast] at hrecord
        exact absurd hrecord.symm (List.cons_ne_nil _ _)
    · intro record rest hrecord
      rw [hleft, List.cons.injEq] at hrecord
      rw [← hrecord.1]
      exact Or.inr ⟨le_refl 24, hcopied⟩

end listings

end Tree

end Listings

end NPKernel
