import NPKernel.GuardedRuns
import NPKernel.NpkfsRecovery
import NPKernel.PersistentFiles

/-!
# Updates of persistent files

The updates of a run are the truncations and the accepted writes, in the order
in which they are performed.  Applied to one byte list per file name they say
what a fresh open should find.  A write-back stores the whole private copy of
its descriptor, so it keeps this agreement exactly as long as no other
descriptor has updated the file since the copy was read.
-/

namespace NPKernel

open GuardedRuns PaddedBuffers BitwiseCrc

variable {i slot : Fin 64} {disk' : Disk} {fs' : PersistentState} {inodes : InodeTable}
  {file : OpenFile} {fd flags : ℕ} {v mid : Vfs} {bytes : List Byte} {allocated : Bool}

/-! ## Events and the updates they perform -/

inductive FileEvent where
  | openFile (name : List Byte) (flags : ℕ) (allocated : Bool)
  | openOther
  | read (fd count : ℕ)
  | write (fd : ℕ) (bytes : List Byte)
  | seek (fd : ℕ) (offset whence : ℤ)
  | retain (fd : ℕ)
  | fsync (fd : ℕ)
  | sync
  | close (fd : ℕ)
  | reboot

def Vfs.perform (sectors : ℕ) (s : Vfs) : FileEvent → Vfs
  | .openFile name flags allocated => (s.vfsOpenFlags sectors name flags allocated).2
  | .openOther => s.openOther.2
  | .read fd count => (s.vfsRead fd count).2.2
  | .write fd bytes => (s.vfsWrite sectors fd bytes).2
  | .seek fd offset whence => (s.vfsSeek fd offset whence).2
  | .retain fd => (s.vfsRetain fd).2
  | .fsync fd => (s.vfsSyncFd sectors fd).2
  | .sync => (s.vfsSyncAll sectors).2
  | .close fd => (s.vfsClose sectors fd).2
  | .reboot => s.reboot sectors

inductive FileUpdate where
  | truncate (name : List Byte)
  | write (name : List Byte) (offset : ℕ) (bytes : List Byte)

abbrev Contents := List Byte → List Byte

def FileUpdate.name : FileUpdate → List Byte
  | .truncate name => name
  | .write name _ _ => name

def FileUpdate.apply (contents : Contents) : FileUpdate → Contents
  | .truncate name => Function.update contents name []
  | .write name offset bytes =>
    Function.update contents name (patch (contents name) offset bytes)

/-- The update of an event, with the slot of the descriptor that performs it. -/
def Vfs.performed (sectors : ℕ) (s : Vfs) : FileEvent → Option (Fin 64 × FileUpdate)
  | .openFile name flags allocated =>
    let fd := (s.vfsOpenFlags sectors name flags allocated).1
    if truncates flags ∧ 0 ≤ fd then
      (descriptorSlot fd.toNat).map fun slot => (slot, .truncate name)
    else none
  | .write fd bytes =>
    let amount := (s.vfsWrite sectors fd bytes).1
    if 0 < amount then
      (descriptorSlot fd).bind fun slot => (s.fileAt slot).map fun file =>
        (slot, .write (s.persistent.inodes file.inode).name file.offset (bytes.take amount.toNat))
    else none
  | _ => none

/-- The descriptors, and for each slot whether another descriptor has updated its
file since it was opened. -/
structure FileRun where
  vfs : Vfs
  stale : Fin 64 → Bool

def Vfs.opens (s : Vfs) (slot : Fin 64) (name : List Byte) : Bool :=
  match s.fileAt slot with
  | none => false
  | some file => (s.persistent.inodes file.inode).name == name

def overtakes (s : Vfs) (slot : Fin 64) : Option (Fin 64 × FileUpdate) → Bool
  | none => false
  | some (writer, update) => slot != writer && s.opens slot update.name

def FileEvent.possible : FileEvent → Bool
  | .openFile name _ _ => nameAllowed name
  | _ => true

def FileRun.advance (s : FileRun) (next : Vfs) (update : Option (Fin 64 × FileUpdate)) :
    FileRun where
  vfs := next
  stale := fun slot =>
    (next.descriptors slot).isSome && (s.stale slot || overtakes next slot update)

def FileRun.step (sectors : ℕ) (s : FileRun) (event : FileEvent) : Option FileRun :=
  if event.possible then
    some (s.advance (s.vfs.perform sectors event) (s.vfs.performed sectors event))
  else none

def FileRun.observe (sectors : ℕ) (s : FileRun) (event : FileEvent) : List FileUpdate :=
  ((s.vfs.performed sectors event).map Prod.snd).toList

def Vfs.writtenBack (s : Vfs) : FileEvent → Fin 64 → Prop
  | .write fd bytes, slot =>
    descriptorSlot fd = some slot ∧ ∀ file, s.fileAt slot = some file → file.accepts bytes
  | .fsync fd, slot => descriptorSlot fd = some slot
  | .sync, _ => True
  | .close fd, slot =>
    descriptorSlot fd = some slot ∧ ∀ d, s.descriptors slot = some d → d.refs = 1
  | _, _ => False

def FileEvent.commits : FileEvent → Bool
  | .openFile _ flags _ => flags &&& NPK_O_CREAT != 0 || truncates flags
  | .write _ _ | .fsync _ | .sync | .close _ => true
  | _ => false

/-- Every copy that is written back is one that no other descriptor has overtaken,
and the generation counter has room for the commits of the event. -/
def CopiesCurrent (s : FileRun) (event : FileEvent) : Prop :=
  (∀ slot, s.vfs.writtenBack event slot → s.stale slot = false) ∧
    (event.commits = true → s.vfs.persistent.super.generation + 64 ≤ UINT32_MAX)

/-- A mounted disk that has just been formatted, with no open descriptor. -/
def formattedFiles (sectors : ℕ) (disk : Disk) : FileRun where
  vfs :=
    { disk := disk.writeAll (persistentFormat sectors).1
      persistent := (persistentFormat sectors).2
      descriptors := fun _ => none }
  stale := fun _ => false

def OpenFile.content (file : OpenFile) : List Byte :=
  image file.data file.size

def openedContent (opened : ℤ × Vfs) : Option (List Byte) :=
  if 0 ≤ opened.1 then
    (descriptorSlot opened.1.toNat).bind fun slot =>
      (opened.2.fileAt slot).map OpenFile.content
  else none

def Vfs.storedContent (s : Vfs) (name : List Byte) : Option (List Byte) :=
  (persistentFind s.persistent.inodes name).map fun i =>
    image (readExtent s.disk (s.persistent.inodes i).startSector) (s.persistent.inodes i).size

def FileEvent.isWriteBack : FileEvent → Bool
  | .fsync _ | .sync | .close _ => true
  | _ => false

/-- Fresh opens find the contents, and write-backs without a write change
nothing. -/
structure UpdatesKept (sectors : ℕ) (contents : Contents) (s : FileRun) : Prop where
  fresh : ∀ name flags, nameAllowed name = true → truncates flags = false →
    CopiesCurrent s (.openFile name flags true) →
      ∀ content ∈ openedContent (s.vfs.vfsOpenFlags sectors name flags true),
        content = contents name
  quiet : ∀ event next, event.isWriteBack = true → CopiesCurrent s event →
    s.step sectors event = some next →
      ∀ name, next.vfs.storedContent name = s.vfs.storedContent name

/-! ## Extents on the disk -/

theorem data_writeAll_map (disk : Disk) (start n : ℕ) (bytes : ℕ → ℕ → Byte) (sector : ℕ) :
    (disk.writeAll ((List.range n).map fun k => .data (start + k) (bytes k))).data sector =
      if start ≤ sector ∧ sector < start + n then bytes (sector - start)
      else disk.data sector := by
  induction n with
  | zero =>
    rw [if_neg (by omega)]
    rfl
  | succ n ih =>
    rw [List.range_succ, List.map_append, Disk.writeAll_append, List.map_cons,
      List.map_nil, Disk.writeAll_cons, Disk.writeAll_nil]
    simp only [Disk.write]
    by_cases hlast : sector = start + n
    · subst hlast
      rw [Function.update_self, if_pos (by omega), Nat.add_sub_cancel_left]
    · rw [Function.update_of_ne hlast, ih]
      by_cases hbefore : start ≤ sector ∧ sector < start + n
      · rw [if_pos hbefore, if_pos (by omega)]
      · rw [if_neg hbefore, if_neg (by omega)]

theorem data_writeAll_commitWrites (disk : Disk) (super : Superblock) (inodes : InodeTable) :
    (disk.writeAll (commitWrites super inodes)).data = disk.data := by
  apply @Disk.writeAll_induct (fun d => d.data = disk.data) _ _ disk rfl
  intro w hw d hd
  have hdata : ∀ sector bytes, w ≠ .data sector bytes := by
    intro sector bytes hw'
    subst hw'
    simp [commitWrites, inodeWrites] at hw
  cases w with
  | data sector bytes => exact absurd rfl (hdata sector bytes)
  | txn | inode | super => exact hd

theorem sector_lt {k : ℕ} (hk : k < PERSIST_FILE_BYTES) :
    k / NPK_SECTOR_SIZE < PERSIST_DATA_SECTORS := by
  simp only [PERSIST_FILE_BYTES, NPK_SECTOR_SIZE, PERSIST_DATA_SECTORS] at hk ⊢
  omega

variable {start sectors : ℕ} {contents : Contents} {s : FileRun}

/-- Storing a buffer in an extent and committing leaves the buffer there and the
extents beside it alone. -/
theorem readExtent_store (disk : Disk) {data : Buffer Byte}
    (hdata : PaddedFrom PERSIST_FILE_BYTES data) (super : Superblock) (inodes : InodeTable) :
    readExtent (disk.writeAll (dataWrites start data ++ commitWrites super inodes)) start =
      data := by
  rw [Disk.writeAll_append]
  funext k
  unfold readExtent
  rw [data_writeAll_commitWrites, dataWrites, data_writeAll_map]
  by_cases hk : k < PERSIST_FILE_BYTES
  · have hinside : start ≤ start + k / NPK_SECTOR_SIZE ∧
        start + k / NPK_SECTOR_SIZE < start + PERSIST_DATA_SECTORS :=
      ⟨Nat.le_add_right _ _, Nat.add_lt_add_left (sector_lt hk) _⟩
    rw [if_pos hk, if_pos hinside, Nat.add_sub_cancel_left, Nat.div_add_mod]
  · rw [if_neg hk, hdata k (by omega)]

theorem readExtent_store_of_disjoint (disk : Disk) {other : ℕ}
    (hdisjoint : start + PERSIST_DATA_SECTORS ≤ other ∨
      other + PERSIST_DATA_SECTORS ≤ start) (data : Buffer Byte) (super : Superblock)
    (inodes : InodeTable) :
    readExtent (disk.writeAll (dataWrites start data ++ commitWrites super inodes)) other =
      readExtent disk other := by
  rw [Disk.writeAll_append]
  funext k
  unfold readExtent
  rw [data_writeAll_commitWrites, dataWrites, data_writeAll_map]
  by_cases hk : k < PERSIST_FILE_BYTES
  · have houtside : ¬(start ≤ other + k / NPK_SECTOR_SIZE ∧
        other + k / NPK_SECTOR_SIZE < start + PERSIST_DATA_SECTORS) := by
      have hsector := sector_lt hk
      generalize k / NPK_SECTOR_SIZE = sector at hsector ⊢
      omega
    rw [if_pos hk, if_pos hk, if_neg houtside]
  · rw [if_neg hk, if_neg hk]

/-! ## The disk stores the contents -/

/-- Both slots hold the table in memory, the extents of the files are disjoint,
and each extent holds the content of its file, followed by zeros. -/
structure Stored (sectors : ℕ) (disk : Disk) (fs : PersistentState)
    (contents : Contents) : Prop where
  slots : ∀ name, disk.slot name = ⟨fs.super, fs.inodes⟩
  made : SuperMade sectors fs.super fs.inodes
  ready : fs.ready = true
  below : ∀ i, (fs.inodes i).used = true →
    (fs.inodes i).startSector + PERSIST_DATA_SECTORS ≤ fs.super.nextSector
  disjoint : ∀ i j, (fs.inodes i).used = true → (fs.inodes j).used = true → i ≠ j →
    (fs.inodes i).startSector + PERSIST_DATA_SECTORS ≤ (fs.inodes j).startSector ∨
      (fs.inodes j).startSector + PERSIST_DATA_SECTORS ≤ (fs.inodes i).startSector
  named : ∀ i j, (fs.inodes i).used = true → (fs.inodes j).used = true →
    (fs.inodes i).name = (fs.inodes j).name → i = j
  content : ∀ i, (fs.inodes i).used = true →
    image (readExtent disk (fs.inodes i).startSector) (fs.inodes i).size =
      contents (fs.inodes i).name
  padded : ∀ i, (fs.inodes i).used = true →
    PaddedFrom (fs.inodes i).size (readExtent disk (fs.inodes i).startSector)
  absent : ∀ name, (∀ i, (fs.inodes i).used = true → (fs.inodes i).name ≠ name) → contents name = []

section Stored

variable {sectors : ℕ} {disk : Disk} {fs : PersistentState} {contents : Contents}

namespace Stored

variable (h : Stored sectors disk fs contents)

include h

theorem memoryValid : MemoryValid sectors fs :=
  ⟨h.made.magic, h.made.version, h.made.dataStart, h.made.lower, h.made.valid⟩

theorem commitAllowed (hgeneration : fs.super.generation < UINT32_MAX) :
    commitAllowed sectors fs = true := by
  have hlower := h.made.lower
  have hupper := h.made.upper
  simp [NPKernel.commitAllowed, h.ready, hlower, hupper, Nat.ne_of_lt hgeneration]

theorem size_le (hused : (fs.inodes i).used = true) :
    (fs.inodes i).size ≤ PERSIST_FILE_BYTES := by
  have hvalid := tableValid_iff.mp h.made.valid i hused
  simp only [persistentInodeValid, Bool.not_eq_true', Bool.or_eq_false_iff,
    decide_eq_false_iff_not, not_lt] at hvalid
  exact hvalid.1.1.1.2

theorem congr (hextent : ∀ start, readExtent disk' start = readExtent disk start)
    (hslots : ∀ name, disk'.slot name = ⟨fs.super, fs.inodes⟩)
    (hsuper : fs'.super = fs.super) (hinodes : fs'.inodes = fs.inodes)
    (hready : fs'.ready = true) : Stored sectors disk' fs' contents := by
  refine ⟨?_, ?_, hready, ?_, ?_, ?_, ?_, ?_, ?_⟩
  · rw [hsuper, hinodes]
    exact hslots
  · rw [hsuper, hinodes]
    exact h.made
  · rw [hsuper, hinodes]
    exact h.below
  · rw [hinodes]
    exact h.disjoint
  · rw [hinodes]
    exact h.named
  · simp only [hinodes, hextent]
    exact h.content
  · simp only [hinodes, hextent]
    exact h.padded
  · rw [hinodes]
    exact h.absent

end Stored

structure Synced (disk : Disk) (fs : PersistentState) (i : Fin 64) (size : ℕ)
    (data : Buffer Byte) (disk' : Disk) (fs' : PersistentState) : Prop where
  inodes : fs'.inodes = Function.update fs.inodes i { fs.inodes i with size := size }
  nextSector : fs'.super.nextSector = fs.super.nextSector
  generation : fs'.super.generation = fs.super.generation + 1
  extent : readExtent disk' (fs.inodes i).startSector = data
  others : ∀ j, (fs.inodes j).used = true → j ≠ i →
    readExtent disk' (fs.inodes j).startSector = readExtent disk (fs.inodes j).startSector

variable {size : ℕ} {data : Buffer Byte} {name : List Byte}

theorem Synced.inode (h : Synced disk fs i size data disk' fs') :
    (∀ j, (fs'.inodes j).used = (fs.inodes j).used) ∧
      (∀ j, (fs'.inodes j).startSector = (fs.inodes j).startSector) ∧
      ∀ j, (fs'.inodes j).name = (fs.inodes j).name := by
  rw [h.inodes]
  refine ⟨fun j => ?_, fun j => ?_, fun j => ?_⟩ <;>
    by_cases hj : j = i <;> simp [hj]

theorem slot_store (disk : Disk) (start : ℕ) (data : Buffer Byte) (super : Superblock)
    (inodes : InodeTable) (name : SlotName) :
    (disk.writeAll (dataWrites start data ++ commitWrites super inodes)).slot name =
      ⟨super, inodes⟩ := by
  rw [Disk.writeAll_append, slot_writeAll_commitWrites]

theorem Stored.afterSync (h : Stored sectors disk fs contents) (hused : (fs.inodes i).used = true)
    (hsize : size ≤ PERSIST_FILE_BYTES) (hpadded : PaddedFrom size data)
    (hgeneration : fs.super.generation < UINT32_MAX) :
    ∃ writes fs', persistentSyncDescriptor sectors fs i size data = (true, writes, fs') ∧
      Synced disk fs i size data (disk.writeAll writes) fs' ∧
      Stored sectors (disk.writeAll writes) fs'
        (Function.update contents (fs.inodes i).name (image data size)) := by
  have hallowed : NPKernel.commitAllowed sectors (withSize fs i size) = true :=
    h.commitAllowed hgeneration
  have hvalid := memoryValid_withSize h.memoryValid hused hsize
  set fs' : PersistentState :=
    { withSize fs i size with super := nextSuper (withSize fs i size), activeSlot := false }
    with hfs'
  set writes := dataWrites (fs.inodes i).startSector data ++
    commitWrites (nextSuper (withSize fs i size)) (withSize fs i size).inodes with hwrites
  have hsynced : Synced disk fs i size data (disk.writeAll writes) fs' := by
    refine ⟨rfl, rfl, rfl, ?_, ?_⟩
    · exact readExtent_store disk (hpadded.mono hsize) _ _
    · intro j hj hji
      exact readExtent_store_of_disjoint disk (h.disjoint i j hused hj (Ne.symm hji)) _ _ _
  refine ⟨writes, fs', ?_, hsynced, ?_⟩
  · simp [persistentSyncDescriptor, persistentWriteMetadata, hallowed, hwrites, hfs']
  · obtain ⟨hsameUsed, hstart, hname⟩ := hsynced.inode
    refine ⟨?_, ?_, ?_, ?_, ?_, ?_, ?_, ?_, ?_⟩
    · intro name
      exact slot_store disk _ _ _ _ name
    · exact superMade_nextSuper hvalid hallowed
    · exact h.ready
    · simpa only [hsameUsed, hstart, hsynced.nextSector] using h.below
    · simpa only [hsameUsed, hstart] using h.disjoint
    · simpa only [hsameUsed, hname] using h.named
    · intro j hj
      rw [hsameUsed] at hj
      rw [hstart, hname]
      by_cases hji : j = i
      · subst hji
        rw [hsynced.extent, hsynced.inodes]
        simp
      · have hother : (fs.inodes j).name ≠ (fs.inodes i).name := fun heq =>
          hji (h.named j i hj hused heq)
        rw [hsynced.others j hj hji, hsynced.inodes, Function.update_of_ne hji,
          Function.update_of_ne hother]
        exact h.content j hj
    · intro j hj
      rw [hsameUsed] at hj
      rw [hstart]
      by_cases hji : j = i
      · subst hji
        rw [hsynced.extent, hsynced.inodes]
        simpa using hpadded
      · rw [hsynced.others j hj hji, hsynced.inodes, Function.update_of_ne hji]
        exact h.padded j hj
    · simp only [hsameUsed, hname]
      intro name habsent
      rw [Function.update_of_ne (habsent i hused).symm]
      exact h.absent name habsent

theorem persistentFind_spec (h : persistentFind inodes name = some i) :
    (inodes i).used = true ∧ (inodes i).name = name := by
  have hfound := List.find?_some h
  simpa using hfound

theorem persistentFind_none
    (h : persistentFind inodes name = none) (i : Fin 64) (hused : (inodes i).used = true) :
    (inodes i).name ≠ name := by
  have habsent := List.find?_eq_none.mp h i (List.mem_finRange i)
  simpa [hused] using habsent

theorem createSlot_spec (h : createSlot sectors fs name = some i) :
    (fs.inodes i).used = false ∧ fs.super.nextSector + PERSIST_DATA_SECTORS ≤ sectors := by
  unfold createSlot at h
  split at h
  next hchecks =>
    simp only [Bool.and_eq_true, decide_eq_true_eq] at hchecks
    have hfree := List.find?_some h
    exact ⟨by simpa using hfree, by omega⟩
  · simp at h

/-- A created file is empty, as its absent content was; the other files stay. -/
structure Created (disk : Disk) (fs : PersistentState) (i : Fin 64) (name : List Byte)
    (disk' : Disk) (fs' : PersistentState) : Prop where
  free : (fs.inodes i).used = false
  inodes : fs'.inodes = Function.update fs.inodes i (newInode fs.super.nextSector name)
  nextSector : fs'.super.nextSector = fs.super.nextSector + PERSIST_DATA_SECTORS
  generation : fs'.super.generation = fs.super.generation + 1
  extent : readExtent disk' fs.super.nextSector = fun _ => 0
  others : ∀ j, (fs.inodes j).used = true →
    readExtent disk' (fs.inodes j).startSector = readExtent disk (fs.inodes j).startSector

theorem Created.inode_of_ne (h : Created disk fs i name disk' fs') {j : Fin 64} (hj : j ≠ i) :
    fs'.inodes j = fs.inodes j := by
  rw [h.inodes, Function.update_of_ne hj]

theorem Created.inode_self (h : Created disk fs i name disk' fs') :
    fs'.inodes i = newInode fs.super.nextSector name := by
  rw [h.inodes, Function.update_self]

theorem Stored.ofCreated (h : Stored sectors disk fs contents)
    (hcreated : Created disk fs i name disk' fs')
    (hslots : ∀ name, disk'.slot name = ⟨fs'.super, fs'.inodes⟩)
    (hmade : SuperMade sectors fs'.super fs'.inodes) (hready : fs'.ready = true)
    (hnew : persistentFind fs.inodes name = none) : Stored sectors disk' fs' contents := by
  have hself := hcreated.inode_self
  have habsent := persistentFind_none hnew
  refine ⟨hslots, hmade, hready, ?_, ?_, ?_, ?_, ?_, ?_⟩
  · intro j hj
    rw [hcreated.nextSector]
    by_cases hji : j = i
    · subst hji
      rw [hself]
      exact le_refl _
    · rw [hcreated.inode_of_ne hji] at hj ⊢
      exact le_trans (h.below j hj) (Nat.le_add_right _ _)
  · intro j k hj hk hjk
    by_cases hji : j = i
    · subst hji
      have hkj : k ≠ j := Ne.symm hjk
      rw [hcreated.inode_of_ne hkj] at hk
      rw [hself, hcreated.inode_of_ne hkj]
      exact .inr (h.below k hk)
    · rw [hcreated.inode_of_ne hji] at hj ⊢
      by_cases hki : k = i
      · subst hki
        rw [hself]
        exact .inl (h.below j hj)
      · rw [hcreated.inode_of_ne hki] at hk ⊢
        exact h.disjoint j k hj hk hjk
  · intro j k hj hk hjk
    by_contra hne
    by_cases hji : j = i
    · subst hji
      have hkj : k ≠ j := fun heq => hne heq.symm
      rw [hcreated.inode_of_ne hkj] at hk hjk
      rw [hself] at hjk
      exact habsent k hk hjk.symm
    · rw [hcreated.inode_of_ne hji] at hj hjk
      by_cases hki : k = i
      · subst hki
        rw [hself] at hjk
        exact habsent j hj hjk
      · rw [hcreated.inode_of_ne hki] at hk hjk
        exact hne (h.named j k hj hk hjk)
  · intro j hj
    by_cases hji : j = i
    · subst hji
      rw [hself]
      exact (h.absent name habsent).symm
    · rw [hcreated.inode_of_ne hji] at hj ⊢
      rw [hcreated.others j hj]
      exact h.content j hj
  · intro j hj
    by_cases hji : j = i
    · subst hji
      rw [hself]
      intro k _
      exact congrFun hcreated.extent k
    · rw [hcreated.inode_of_ne hji] at hj ⊢
      rw [hcreated.others j hj]
      exact h.padded j hj
  · intro other hother
    apply h.absent
    intro j hj
    have hji : j ≠ i := by
      intro heq
      rw [heq, hcreated.free] at hj
      exact Bool.noConfusion hj
    have hj' := hother j
    rw [hcreated.inode_of_ne hji] at hj'
    exact hj' hj

theorem Stored.afterCreate (h : Stored sectors disk fs contents)
    (hname : nameAllowed name = true) (hnew : persistentFind fs.inodes name = none)
    (hgeneration : fs.super.generation < UINT32_MAX) :
    persistentCreate sectors fs name = (none, [], fs) ∨
      ∃ i writes fs', persistentCreate sectors fs name = (some i, writes, fs') ∧
        Created disk fs i name (disk.writeAll writes) fs' ∧
        Stored sectors (disk.writeAll writes) fs' contents := by
  unfold persistentCreate
  cases hslot : createSlot sectors fs name with
  | none => exact .inl rfl
  | some i =>
    obtain ⟨hfree, hroom⟩ := createSlot_spec hslot
    have hvalid := memoryValid_withNewInode h.memoryValid hname hslot
    have hallowed : NPKernel.commitAllowed sectors (withNewInode fs i name) = true := by
      have hlower := h.made.lower
      simp [NPKernel.commitAllowed, withNewInode, h.ready, hroom, Nat.ne_of_lt hgeneration]
      omega
    have hcreated : Created disk fs i name
        (disk.writeAll (dataWrites fs.super.nextSector (fun _ => 0) ++
          commitWrites (nextSuper (withNewInode fs i name)) (withNewInode fs i name).inodes))
        { withNewInode fs i name with
          super := nextSuper (withNewInode fs i name), activeSlot := false } := by
      refine ⟨hfree, rfl, rfl, rfl, ?_, ?_⟩
      · exact readExtent_store disk (fun _ _ => rfl) _ _
      · intro j hj
        exact readExtent_store_of_disjoint disk (.inr (h.below j hj)) _ _ _
    refine .inr ⟨i, _, _, ?_, hcreated, ?_⟩
    · simp [persistentWriteMetadata, hallowed]
    · exact h.ofCreated hcreated (fun slot => slot_store disk _ _ _ _ slot)
        (superMade_nextSuper hvalid hallowed) h.ready hnew

end Stored

/-! ## The copies of the open descriptors -/

def Vfs.Matches (s : Vfs) (file : OpenFile) : Prop :=
  file.data = readExtent s.disk (s.persistent.inodes file.inode).startSector ∧
    file.size = (s.persistent.inodes file.inode).size

structure FileRun.Intact (sectors : ℕ) (contents : Contents) (s : FileRun) : Prop where
  stored : Stored sectors s.vfs.disk s.vfs.persistent contents
  inUse : ∀ slot file, s.vfs.fileAt slot = some file →
    (s.vfs.persistent.inodes file.inode).used = true
  current : ∀ slot file, s.vfs.fileAt slot = some file → s.stale slot = false → s.vfs.Matches file
  closed : ∀ slot, s.vfs.descriptors slot = none → s.stale slot = false

/-- Every copy of the next state agrees with its disk, or is overtaken by the
update of the step, or agrees if the copy in its slot did before the step. -/
structure Advances (sectors : ℕ) (contents : Contents) (s next : Vfs)
    (update : Option (Fin 64 × FileUpdate)) : Prop where
  stored : Stored sectors next.disk next.persistent contents
  inUse : ∀ slot file, next.fileAt slot = some file →
    (next.persistent.inodes file.inode).used = true
  files : ∀ slot file, next.fileAt slot = some file →
    next.Matches file ∨ overtakes next slot update = true ∨
      ∃ before, s.fileAt slot = some before ∧ (s.Matches before → next.Matches file)

/-- The event leads to the contents after its update. -/
def FileRun.Tracks (sectors : ℕ) (contents : Contents) (s : FileRun) (event : FileEvent) : Prop :=
  Advances sectors ((s.observe sectors event).foldl FileUpdate.apply contents) s.vfs
    (s.vfs.perform sectors event) (s.vfs.performed sectors event)

theorem FileRun.Intact.advance {contents' : Contents} (h : s.Intact sectors contents) {next : Vfs}
    {update : Option (Fin 64 × FileUpdate)} (hnext : Advances sectors contents' s.vfs next update) :
    (s.advance next update).Intact sectors contents' := by
  refine ⟨hnext.stored, hnext.inUse, ?_, ?_⟩
  · intro slot file hfile hstale
    have hopen : (next.descriptors slot).isSome = true := by
      cases hd : next.descriptors slot with
      | none => simp [FileRun.advance, Vfs.fileAt, hd] at hfile
      | some d => rfl
    simp only [FileRun.advance, hopen, Bool.true_and, Bool.or_eq_false_iff] at hstale
    rcases hnext.files slot file hfile with hmatches | hovertaken | ⟨before, hbefore, hkeeps⟩
    · exact hmatches
    · rw [hstale.2] at hovertaken
      exact Bool.noConfusion hovertaken
    · exact hkeeps (h.current slot before hbefore hstale.1)
  · intro slot hslot
    have hnone : next.descriptors slot = none := hslot
    simp [FileRun.advance, hnone]

/-! ## Calls that change no file -/

structure Rests (sectors : ℕ) (contents : Contents) (s next : Vfs) : Prop where
  stored : Stored sectors next.disk next.persistent contents
  inodes : next.persistent.inodes = s.persistent.inodes
  extents : ∀ i, (s.persistent.inodes i).used = true →
    readExtent next.disk (s.persistent.inodes i).startSector =
      readExtent s.disk (s.persistent.inodes i).startSector
  descriptors : next.descriptors = s.descriptors

section Rests

variable {sectors : ℕ} {contents : Contents} {s next : Vfs}

theorem Rests.refl (h : Stored sectors s.disk s.persistent contents) : Rests sectors contents s s :=
  ⟨h, rfl, fun _ _ => rfl, rfl⟩

theorem Rests.trans {last : Vfs} (h : Rests sectors contents s next)
    (h' : Rests sectors contents next last) : Rests sectors contents s last := by
  refine ⟨h'.stored, h'.inodes.trans h.inodes, ?_, h'.descriptors.trans h.descriptors⟩
  intro i hi
  have hextent := h'.extents i
  rw [h.inodes] at hextent
  rw [hextent hi, h.extents i hi]

theorem Rests.fileAt (h : Rests sectors contents s next) (slot : Fin 64) :
    next.fileAt slot = s.fileAt slot := by
  rw [Vfs.fileAt, h.descriptors]
  rfl

theorem Rests.matches (h : Rests sectors contents s next)
    (hused : (s.persistent.inodes file.inode).used = true) (hfile : s.Matches file) :
    next.Matches file := by
  unfold Vfs.Matches
  rw [h.inodes, h.extents _ hused]
  exact hfile

theorem disk_setFile (s : Vfs) (slot : Fin 64) (file : OpenFile) :
    (s.setFile slot file).disk = s.disk := rfl

theorem persistent_setFile (s : Vfs) (slot : Fin 64) (file : OpenFile) :
    (s.setFile slot file).persistent = s.persistent := rfl

theorem disk_setDescriptor (s : Vfs) (slot : Fin 64) (d : Option Descriptor) :
    (s.setDescriptor slot d).disk = s.disk := rfl

theorem persistent_setDescriptor (s : Vfs) (slot : Fin 64) (d : Option Descriptor) :
    (s.setDescriptor slot d).persistent = s.persistent := rfl

theorem fileAt_syncFile (s : Vfs) (file : OpenFile) (slot : Fin 64) :
    (s.syncFile sectors file).2.fileAt slot = s.fileAt slot := rfl

theorem fileAt_setDescriptor (s : Vfs) (slot other : Fin 64) (d : Option Descriptor) :
    (s.setDescriptor slot d).fileAt other =
      if other = slot then d.bind Descriptor.file else s.fileAt other := by
  by_cases hother : other = slot
  · subst hother
    simp [Vfs.fileAt, Vfs.setDescriptor]
  · simp [Vfs.fileAt, Vfs.setDescriptor, hother]

theorem fileAt_setFile {s : Vfs} {before : OpenFile}
    (h : s.fileAt slot = some before) (other : Fin 64) (file : OpenFile) :
    (s.setFile slot file).fileAt other =
      if other = slot then some file else s.fileAt other := by
  obtain ⟨d, hd, hfile⟩ := Option.bind_eq_some_iff.mp h
  by_cases hother : other = slot
  · subst hother
    simp [Vfs.fileAt, Vfs.setFile, hd]
  · simp [Vfs.fileAt, Vfs.setFile, hother]

/-- After a call that rests, a slot may be closed, or its file replaced by one
that agrees with the disk or has the same copy. -/
theorem Rests.advances (h : Rests sectors contents s next)
    (hinUse : ∀ slot file, s.fileAt slot = some file → (s.persistent.inodes file.inode).used = true)
    {changed : Vfs} (hdisk : changed.disk = next.disk)
    (hpersistent : changed.persistent = next.persistent)
    (hfiles : ∀ slot file, changed.fileAt slot = some file →
      ∃ before, s.fileAt slot = some before ∧ file.inode = before.inode ∧
        file.data = before.data ∧ file.size = before.size) :
    Advances sectors contents s changed none := by
  refine ⟨?_, ?_, ?_⟩
  · rw [hdisk, hpersistent]
    exact h.stored
  · intro slot file hfile
    obtain ⟨before, hbefore, hinode, -⟩ := hfiles slot file hfile
    rw [hpersistent, h.inodes, hinode]
    exact hinUse slot before hbefore
  · intro slot file hfile
    obtain ⟨before, hbefore, hinode, hdata, hsize⟩ := hfiles slot file hfile
    refine .inr (.inr ⟨before, hbefore, fun hmatches => ?_⟩)
    have hnext := h.matches (hinUse slot before hbefore) hmatches
    unfold Vfs.Matches at hnext ⊢
    rw [hdisk, hpersistent, hinode, hdata, hsize]
    exact hnext

variable (h : Stored sectors s.disk s.persistent contents)

include h

theorem Rests.afterSyncSlot (hgeneration : s.persistent.super.generation < UINT32_MAX)
    {slot : Fin 64}
    (hfile : ∀ file, s.fileAt slot = some file →
      (s.persistent.inodes file.inode).used = true ∧ s.Matches file) :
    Rests sectors contents s (s.syncSlot sectors slot).2 ∧
      (s.syncSlot sectors slot).2.persistent.super.generation ≤
        s.persistent.super.generation + 1 := by
  unfold Vfs.syncSlot
  cases hat : s.fileAt slot with
  | none => exact ⟨Rests.refl h, Nat.le_succ _⟩
  | some file =>
    obtain ⟨hused, hdata, hsize⟩ := hfile file hat
    have hle : file.size ≤ PERSIST_FILE_BYTES := by
      rw [hsize]
      exact h.size_le hused
    have hpadded : PaddedFrom file.size file.data := by
      rw [hsize, hdata]
      exact h.padded _ hused
    obtain ⟨writes, fs', hresult, hsynced, hstored⟩ :=
      h.afterSync hused hle hpadded hgeneration
    have hsame : Function.update contents (s.persistent.inodes file.inode).name
        (image file.data file.size) = contents := by
      rw [hdata, hsize, h.content _ hused, Function.update_eq_self]
    have hinodes : fs'.inodes = s.persistent.inodes := by
      rw [hsynced.inodes, hsize]
      exact Function.update_eq_self _ _
    rw [hsame] at hstored
    simp only [Vfs.syncFile, hresult]
    refine ⟨⟨hstored, hinodes, ?_, rfl⟩, le_of_eq hsynced.generation⟩
    intro i hi
    by_cases hinode : i = file.inode
    · rw [hinode, hsynced.extent, hdata]
    · exact hsynced.others i hi hinode

theorem Rests.afterSyncAll (hgeneration : s.persistent.super.generation + 64 ≤ UINT32_MAX)
    (hfiles : ∀ slot file, s.fileAt slot = some file →
      (s.persistent.inodes file.inode).used = true ∧ s.Matches file) :
    Rests sectors contents s (s.vfsSyncAll sectors).2 := by
  have hloop : ∀ (slots : List (Fin 64)) (acc : ℤ × Vfs), Rests sectors contents s acc.2 →
      acc.2.persistent.super.generation + slots.length ≤ UINT32_MAX →
      Rests sectors contents s (slots.foldl (fun acc slot =>
        let synced := acc.2.syncSlot sectors slot
        (if !synced.1 && acc.1 == 0 then -5 else acc.1, synced.2)) acc).2 := by
    intro slots
    induction slots with
    | nil =>
      intro acc hrests _
      exact hrests
    | cons slot slots ih =>
      intro acc hrests hroom
      rw [List.length_cons] at hroom
      have hslot := @Rests.afterSyncSlot sectors contents acc.2 hrests.stored (by omega) slot (by
          intro file hfile
          rw [hrests.fileAt] at hfile
          obtain ⟨hused, hmatches⟩ := hfiles slot file hfile
          refine ⟨?_, hrests.matches hused hmatches⟩
          rw [hrests.inodes]
          exact hused)
      apply ih
      · exact hrests.trans hslot.1
      · have hle := hslot.2
        dsimp only
        omega
  exact hloop (List.finRange 64) (0, s) (Rests.refl h) (by simpa using hgeneration)

theorem Stored.storedContent (name : List Byte) :
    s.storedContent name =
      (persistentFind s.persistent.inodes name).map fun _ => contents name := by
  unfold Vfs.storedContent
  cases hfind : persistentFind s.persistent.inodes name with
  | none => rfl
  | some i =>
    obtain ⟨hused, hname⟩ := persistentFind_spec hfind
    rw [Option.map_some, Option.map_some, h.content i hused, hname]

end Rests

/-! ## One lemma per call -/

section Calls

variable {sectors : ℕ} {contents : Contents} {s : FileRun}

structure KeepsFiles (sectors : ℕ) (contents : Contents) (s next : Vfs) : Prop where
  advances : Advances sectors contents s next none
  inodes : next.persistent.inodes = s.persistent.inodes

theorem persistentInit_keeps {disk : Disk} {name : SlotName}
    (h : Current sectors disk.slot name inodes) :
    (disk.writeAll (persistentInit sectors disk).writes).data = disk.data ∧
      (persistentInit sectors disk).state.ready = true := by
  unfold persistentInit
  rw [h.recovered]
  refine ⟨?_, rfl⟩
  dsimp only
  split <;> rfl

namespace FileRun.Intact

variable (h : s.Intact sectors contents)

include h

theorem unchanged : Advances sectors contents s.vfs s.vfs none :=
  (Rests.refl h.stored).advances h.inUse rfl rfl fun _ file hfile => ⟨file, hfile, rfl, rfl, rfl⟩

theorem moveOffset (hfile : s.vfs.fileAt slot = some file) (offset : ℕ) :
    Advances sectors contents s.vfs
      (s.vfs.setFile slot { file with offset := offset }) none := by
  refine (Rests.refl h.stored).advances h.inUse rfl rfl ?_
  intro other moved hmoved
  rw [fileAt_setFile hfile] at hmoved
  split at hmoved
  next hother =>
    cases hmoved
    exact ⟨file, hother ▸ hfile, rfl, rfl, rfl⟩
  · exact ⟨moved, hmoved, rfl, rfl, rfl⟩

variable {next : Vfs} {name : List Byte} {result : Option (Fin 64) × Vfs} {event : FileEvent}

theorem afterRests
    (hrests : Rests sectors contents s.vfs next) (slot : Fin 64) (d : Option Descriptor)
    (hd : ∀ file, d.bind Descriptor.file = some file → s.vfs.fileAt slot = some file) :
    Advances sectors contents s.vfs (next.setDescriptor slot d) none := by
  refine hrests.advances h.inUse rfl rfl ?_
  intro other file hfile
  rw [fileAt_setDescriptor] at hfile
  split at hfile
  next hother => exact ⟨file, hother ▸ hd file hfile, rfl, rfl, rfl⟩
  · rw [hrests.fileAt] at hfile
    exact ⟨file, hfile, rfl, rfl, rfl⟩

theorem read (fd count : ℕ) :
    Advances sectors contents s.vfs (s.vfs.vfsRead fd count).2.2 none := by
  fun_cases Vfs.vfsRead s.vfs fd count with
  | case5 slot _ file hfile => exact h.moveOffset hfile _
  | _ => exact h.unchanged

theorem seek (fd : ℕ) (offset whence : ℤ) :
    Advances sectors contents s.vfs (s.vfs.vfsSeek fd offset whence).2 none := by
  fun_cases Vfs.vfsSeek s.vfs fd offset whence with
  | case5 slot _ file hfile => exact h.moveOffset hfile _
  | _ => exact h.unchanged

theorem retain (fd : ℕ) :
    Advances sectors contents s.vfs (s.vfs.vfsRetain fd).2 none := by
  fun_cases Vfs.vfsRetain s.vfs fd with
  | case5 _ slot _ d hd =>
    apply h.afterRests (Rests.refl h.stored)
    intro file hfile
    simpa [Vfs.fileAt, hd] using hfile
  | _ => exact h.unchanged

theorem openOther : Advances sectors contents s.vfs s.vfs.openOther.2 none := by
  unfold Vfs.openOther
  cases s.vfs.allocateDescriptor with
  | none => exact h.unchanged
  | some slot =>
    apply h.afterRests (Rests.refl h.stored)
    intro file hfile
    simp at hfile

theorem syncSlot (hgeneration : s.vfs.persistent.super.generation + 64 ≤ UINT32_MAX)
    (hstale : s.stale slot = false) :
    Rests sectors contents s.vfs (s.vfs.syncSlot sectors slot).2 := by
  have hrests := @Rests.afterSyncSlot sectors contents s.vfs h.stored (by omega) slot
    fun file hfile => ⟨h.inUse slot file hfile, h.current slot file hfile hstale⟩
  exact hrests.1

theorem keepsUnchanged :
    KeepsFiles sectors contents s.vfs s.vfs :=
  ⟨h.unchanged, rfl⟩

theorem keepsRests (hrests : Rests sectors contents s.vfs next) :
    KeepsFiles sectors contents s.vfs next := by
  refine ⟨hrests.advances h.inUse rfl rfl ?_, hrests.inodes⟩
  intro slot file hfile
  rw [hrests.fileAt] at hfile
  exact ⟨file, hfile, rfl, rfl, rfl⟩

theorem fsync (hcurrent : CopiesCurrent s (.fsync fd)) :
    KeepsFiles sectors contents s.vfs (s.vfs.vfsSyncFd sectors fd).2 := by
  fun_cases Vfs.vfsSyncFd sectors s.vfs fd with
  | case3 slot hslot =>
    exact h.keepsRests (h.syncSlot (hcurrent.2 rfl) (hcurrent.1 slot hslot))
  | _ => exact h.keepsUnchanged

theorem sync (hcurrent : CopiesCurrent s .sync) :
    KeepsFiles sectors contents s.vfs (s.vfs.vfsSyncAll sectors).2 := by
  apply h.keepsRests
  apply Rests.afterSyncAll h.stored (hcurrent.2 rfl)
  intro slot file hfile
  exact ⟨h.inUse slot file hfile, h.current slot file hfile (hcurrent.1 slot trivial)⟩

theorem close (hcurrent : CopiesCurrent s (.close fd)) :
    KeepsFiles sectors contents s.vfs (s.vfs.vfsClose sectors fd).2 := by
  fun_cases Vfs.vfsClose sectors s.vfs fd with
  | case5 _ slot _ d hd =>
    refine ⟨h.afterRests (Rests.refl h.stored) slot _ ?_, rfl⟩
    intro file hfile
    simpa [Vfs.fileAt, hd] using hfile
  | case6 _ slot hslot d hd hrefs hlast =>
    have hstale : s.stale slot = false := by
      apply hcurrent.1 slot
      refine ⟨hslot, ?_⟩
      intro d' hd'
      rw [hd] at hd'
      cases hd'
      omega
    have hrests := h.syncSlot (hcurrent.2 rfl) hstale
    refine ⟨h.afterRests hrests slot none ?_, hrests.inodes⟩
    intro file hfile
    simp at hfile
  | _ => exact h.keepsUnchanged

theorem reboot :
    Advances sectors contents s.vfs (s.vfs.reboot sectors) none := by
  have hslots := h.stored.slots
  have hcurrent : Current sectors s.vfs.disk.slot .primary s.vfs.persistent.inodes := by
    refine ⟨?_, ?_, ?_⟩
    · rw [hslots]
      exact h.stored.made
    · rw [hslots]
    · simp only [Newest, hslots]
      exact le_refl _
  obtain ⟨-, hinodes, hsuper, -, hslot⟩ := persistentInit_of_current hcurrent
  obtain ⟨hdata, hready⟩ := persistentInit_keeps hcurrent
  have hkept := hslot (persistentInit sectors s.vfs.disk).writes.length
  rw [List.take_length] at hkept
  rw [hslots] at hsuper
  have hstored : Stored sectors (s.vfs.reboot sectors).disk
      (s.vfs.reboot sectors).persistent contents := by
    have hextent : ∀ start, readExtent (s.vfs.reboot sectors).disk start =
        readExtent s.vfs.disk start := by
      intro start
      unfold readExtent Vfs.reboot
      dsimp only
      rw [hdata]
    apply h.stored.congr hextent
    · intro name
      have hname := congrFun hkept name
      rw [hslots] at hname
      exact hname
    · exact hsuper
    · exact hinodes
    · exact hready
  refine ⟨hstored, ?_, ?_⟩
  · intro slot file hfile
    simp [Vfs.reboot, Vfs.fileAt] at hfile
  · intro slot file hfile
    simp [Vfs.reboot, Vfs.fileAt] at hfile

end FileRun.Intact

/-! ## Opens and writes -/

theorem descriptorSlot_number (slot : Fin 64) :
    descriptorSlot (descriptorNumber slot) = some slot := by
  have hslot := slot.isLt
  simp [descriptorSlot, descriptorNumber]

structure Found (sectors : ℕ) (contents : Contents) (s : Vfs) (name : List Byte)
    (result : Option (Fin 64) × Vfs) : Prop where
  stored : Stored sectors result.2.disk result.2.persistent contents
  generation : result.2.persistent.super.generation ≤ s.persistent.super.generation + 1
  descriptors : result.2.descriptors = s.descriptors
  inodes : ∀ i, (s.persistent.inodes i).used = true →
    result.2.persistent.inodes i = s.persistent.inodes i
  extents : ∀ i, (s.persistent.inodes i).used = true →
    readExtent result.2.disk (s.persistent.inodes i).startSector =
      readExtent s.disk (s.persistent.inodes i).startSector
  found : ∀ i, result.1 = some i → (result.2.persistent.inodes i).used = true ∧
    (result.2.persistent.inodes i).name = name

theorem found_unchanged (h : Stored sectors v.disk v.persistent contents) {i : Option (Fin 64)}
    (hfound : ∀ j, i = some j → (v.persistent.inodes j).used = true ∧
      (v.persistent.inodes j).name = name) :
    Found sectors contents v name (i, v) :=
  ⟨h, Nat.le_succ _, rfl, fun _ _ => rfl, fun _ _ => rfl, hfound⟩

theorem findOrCreate_found (h : Stored sectors v.disk v.persistent contents)
    (hname : nameAllowed name = true) (flags : ℕ)
    (hgeneration : (flags &&& NPK_O_CREAT != 0) = true →
      v.persistent.super.generation < UINT32_MAX) :
    Found sectors contents v name (v.findOrCreate sectors name flags) := by
  unfold Vfs.findOrCreate
  cases hfind : persistentFind v.persistent.inodes name with
  | some i =>
    apply found_unchanged h
    intro j hj
    cases hj
    exact persistentFind_spec hfind
  | none =>
    dsimp only
    split
    next hcreat =>
      rcases h.afterCreate hname hfind (hgeneration hcreat) with
        hfailed | ⟨i, writes, fs', hresult, hcreated, hstored⟩
      · rw [hfailed]
        apply found_unchanged h
        intro j hj
        simp at hj
      · rw [hresult]
        have hne : ∀ j, (v.persistent.inodes j).used = true → j ≠ i := by
          intro j hj heq
          rw [heq, hcreated.free] at hj
          exact Bool.noConfusion hj
        refine ⟨hstored, le_of_eq hcreated.generation, rfl, ?_, hcreated.others, ?_⟩
        · intro j hj
          exact hcreated.inode_of_ne (hne j hj)
        · intro j hj
          cases hj
          rw [hcreated.inode_self]
          exact ⟨rfl, rfl⟩
    · apply found_unchanged h
      intro j hj
      simp at hj

theorem Found.keeps (h : Found sectors contents v name result)
    (hused : (v.persistent.inodes file.inode).used = true) (hfile : v.Matches file) :
    result.2.Matches file := by
  unfold Vfs.Matches
  rw [h.inodes _ hused, h.extents _ hused]
  exact hfile

theorem Found.fileAt (h : Found sectors contents v name result) (slot : Fin 64) :
    result.2.fileAt slot = v.fileAt slot := by
  rw [Vfs.fileAt, h.descriptors]
  rfl

/-- A copy that can be written back: of a file in use, within its extent, and zero
beyond its size. -/
structure Storable (v : Vfs) (file : OpenFile) : Prop where
  used : (v.persistent.inodes file.inode).used = true
  size_le : file.size ≤ PERSIST_FILE_BYTES
  padded : PaddedFrom file.size file.data

/-- Writing back a changed copy of a file stores its content; every other copy of
the file is overtaken. -/
theorem Advances.afterUpdate (h : Advances sectors contents v mid none) (hfile : Storable mid file)
    (hgeneration : mid.persistent.super.generation < UINT32_MAX)
    (next : Vfs) (stored : OpenFile) (slot : Fin 64) (update : FileUpdate)
    (hsame : stored.inode = file.inode ∧ stored.data = file.data ∧ stored.size = file.size)
    (hdisk : next.disk = (mid.syncFile sectors file).2.disk)
    (hpersistent : next.persistent = (mid.syncFile sectors file).2.persistent)
    (hslot : next.fileAt slot = some stored)
    (hother : ∀ other, other ≠ slot → next.fileAt other = mid.fileAt other)
    (hname : (mid.persistent.inodes file.inode).name = update.name) :
    Advances sectors (Function.update contents update.name file.content) v next
      (some (slot, update)) := by
  obtain ⟨writes, fs', hresult, hsynced, hstored⟩ :=
    h.stored.afterSync hfile.used hfile.size_le hfile.padded hgeneration
  simp only [Vfs.syncFile, hresult] at hdisk hpersistent
  rw [← hdisk, ← hpersistent] at hsynced
  rw [← hdisk, ← hpersistent, hname] at hstored
  have hinode := hsynced.inode
  refine ⟨hstored, ?_, ?_⟩
  · intro other g hg
    rw [hinode.1]
    by_cases heq : other = slot
    · rw [heq, hslot] at hg
      cases hg
      rw [hsame.1]
      exact hfile.used
    · rw [hother other heq] at hg
      exact h.inUse other g hg
  · intro other g hg
    by_cases heq : other = slot
    · rw [heq, hslot] at hg
      cases hg
      refine .inl ⟨?_, ?_⟩
      · rw [hinode.2.1, hsame.1, hsynced.extent, hsame.2.1]
      · rw [hsynced.inodes, hsame.1, hsame.2.2]
        simp
    · have hmid := hg
      rw [hother other heq] at hmid
      by_cases hshared : g.inode = file.inode
      · refine .inr (.inl ?_)
        simp only [overtakes, Vfs.opens, hg, Bool.and_eq_true, bne_iff_ne, ne_eq, beq_iff_eq]
        refine ⟨heq, ?_⟩
        rw [hinode.2.2, hshared, hname]
      · have hkeeps : mid.Matches g → next.Matches g := by
          intro hmatches
          unfold Vfs.Matches
          rw [hsynced.inodes, Function.update_of_ne hshared,
            hsynced.others _ (h.inUse other g hmid) hshared]
          exact hmatches
        rcases h.files other g hmid with hmatches | hovertaken | ⟨before, hbefore, hcarry⟩
        · exact .inl (hkeeps hmatches)
        · simp [overtakes] at hovertaken
        · exact .inr (.inr ⟨before, hbefore, fun hm => hkeeps (hcarry hm)⟩)

theorem OpenFile.amount_le (file : OpenFile) (bytes : List Byte) :
    (bytes.take (file.amount bytes)).length = file.amount bytes := by
  rw [List.length_take, OpenFile.amount]
  omega

theorem OpenFile.amount_pos (h : file.accepts bytes = true) :
    0 < file.amount bytes ∧ file.offset + file.amount bytes ≤ PERSIST_FILE_BYTES := by
  simp only [OpenFile.accepts, Bool.and_eq_true, bne_iff_ne, ne_eq, decide_eq_true_eq] at h
  have hlength : 0 < bytes.length := List.length_pos_iff.mpr h.1.2
  unfold OpenFile.amount
  omega

theorem OpenFile.refusal_nonpos (file : OpenFile) (bytes : List Byte) : file.refusal bytes ≤ 0 := by
  unfold OpenFile.refusal
  split
  · decide
  · split <;> decide

theorem Storable.written (h : Storable v file) (haccepts : file.accepts bytes = true) :
    Storable v (file.written bytes) := by
  have hover := h.padded.overwrite file.offset (bytes.take (file.amount bytes))
  rw [OpenFile.amount_le] at hover
  exact ⟨h.used, max_le h.size_le (OpenFile.amount_pos haccepts).2, hover⟩

theorem Storable.content_written (h : Storable v file) (bytes : List Byte) :
    (file.written bytes).content =
      patch file.content file.offset (bytes.take (file.amount bytes)) := by
  have himage := image_overwrite h.padded file.offset (bytes.take (file.amount bytes))
  rwa [OpenFile.amount_le] at himage

theorem syncFile_succeeds (h : Stored sectors v.disk v.persistent contents)
    (hfile : Storable v file) (hgeneration : v.persistent.super.generation < UINT32_MAX) :
    (v.syncFile sectors file).1 = true := by
  obtain ⟨writes, fs', hresult, -⟩ :=
    h.afterSync hfile.used hfile.size_le hfile.padded hgeneration
  simp only [Vfs.syncFile, hresult]

theorem advances_failedOpen {code : ℤ}
    (hopen : s.vfs.vfsOpenFlags sectors name flags allocated = (code, next))
    (hcode : code < 0) (hnext : Advances sectors contents s.vfs next none) :
    s.Tracks sectors contents (.openFile name flags allocated) := by
  have hnegative : ¬0 ≤ code := not_le.mpr hcode
  have hperformed : s.vfs.performed sectors (.openFile name flags allocated) = none := by
    simp [Vfs.performed, hopen, hnegative]
  rw [FileRun.Tracks, FileRun.observe, hperformed, Vfs.perform, hopen]
  exact hnext

theorem Vfs.loadFile_matches (v : Vfs) (i : Fin 64) (flags : ℕ) :
    v.Matches ((v.loadFile i flags).positioned flags) :=
  ⟨rfl, rfl⟩

theorem Advances.addCopy (h : Advances sectors contents s.vfs mid none)
    (hused : (mid.persistent.inodes i).used = true) (slot : Fin 64) (flags : ℕ) :
    Advances sectors contents s.vfs
      (mid.setDescriptor slot (some ⟨1, some ((mid.loadFile i flags).positioned flags)⟩))
      none := by
  refine ⟨h.stored, ?_, ?_⟩
  · intro other file hfile
    rw [fileAt_setDescriptor] at hfile
    split at hfile
    · cases hfile
      exact hused
    · exact h.inUse other file hfile
  · intro other file hfile
    rw [fileAt_setDescriptor] at hfile
    split at hfile
    · cases hfile
      exact .inl (mid.loadFile_matches i flags)
    · rcases h.files other file hfile with hmatches | hovertaken | hcarried
      · exact .inl hmatches
      · simp [overtakes] at hovertaken
      · exact .inr (.inr hcarried)

theorem Advances.openInode (hmid : Advances sectors contents s.vfs mid none)
    (hused : (mid.persistent.inodes i).used = true) (hnamed : (mid.persistent.inodes i).name = name)
    (hgeneration : truncates flags = true → mid.persistent.super.generation < UINT32_MAX)
    (hopen : s.vfs.vfsOpenFlags sectors name flags allocated =
      mid.openInode sectors slot i flags allocated) :
    s.Tracks sectors contents (.openFile name flags allocated) := by
  by_cases hallocated : allocated = true
  · by_cases htruncates : truncates flags = true
    · have hstorable : Storable mid (mid.loadFile i flags).truncated :=
        ⟨hused, Nat.zero_le _, fun _ _ => rfl⟩
      have hsuccess := syncFile_succeeds hmid.stored hstorable (hgeneration htruncates)
      have hresult : s.vfs.vfsOpenFlags sectors name flags allocated =
          ((descriptorNumber slot : ℤ),
            (mid.syncFile sectors (mid.loadFile i flags).truncated).2.setDescriptor slot
              (some ⟨1, some ((mid.loadFile i flags).truncated.positioned flags)⟩)) := by
        rw [hopen]
        simp only [Vfs.openInode, hallocated, htruncates, hsuccess, if_true, Bool.not_true,
          Bool.false_eq_true, if_false]
      have hperformed : s.vfs.performed sectors (.openFile name flags allocated) =
          some (slot, .truncate name) := by
        simp [Vfs.performed, hresult, htruncates, descriptorSlot_number]
      rw [FileRun.Tracks, FileRun.observe, hperformed, Vfs.perform, hresult]
      refine hmid.afterUpdate hstorable (hgeneration htruncates) _
        ((mid.loadFile i flags).truncated.positioned flags) slot (.truncate name)
        ⟨rfl, rfl, rfl⟩ (disk_setDescriptor _ _ _) (persistent_setDescriptor _ _ _) ?_ ?_
        hnamed
      · rw [fileAt_setDescriptor, if_pos rfl]
        rfl
      · intro other hother
        rw [fileAt_setDescriptor, if_neg hother, fileAt_syncFile]
    · have hresult : s.vfs.vfsOpenFlags sectors name flags allocated =
          ((descriptorNumber slot : ℤ),
            mid.setDescriptor slot (some ⟨1, some ((mid.loadFile i flags).positioned flags)⟩)) := by
        rw [hopen]
        simp only [Vfs.openInode, hallocated, htruncates, Bool.not_true,
          Bool.false_eq_true, if_false]
      have hperformed : s.vfs.performed sectors (.openFile name flags allocated) = none := by
        simp [Vfs.performed, htruncates]
      rw [FileRun.Tracks, FileRun.observe, hperformed, Vfs.perform, hresult]
      exact hmid.addCopy hused slot flags
  · apply advances_failedOpen _ (show (-5 : ℤ) < 0 by decide) hmid
    rw [hopen]
    simp [Vfs.openInode, hallocated]

namespace FileRun.Intact

variable (h : s.Intact sectors contents)

include h

theorem found (hfound : Found sectors contents s.vfs name result) :
    Advances sectors contents s.vfs result.2 none := by
  refine ⟨hfound.stored, ?_, ?_⟩
  · intro slot file hfile
    rw [hfound.fileAt] at hfile
    have hused := h.inUse slot file hfile
    rw [hfound.inodes _ hused]
    exact hused
  · intro slot file hfile
    rw [hfound.fileAt] at hfile
    exact .inr (.inr ⟨file, hfile, hfound.keeps (h.inUse slot file hfile)⟩)

theorem storable (hfile : s.vfs.fileAt slot = some file)
    (hstale : s.stale slot = false) : Storable s.vfs file := by
  have hused := h.inUse slot file hfile
  obtain ⟨hdata, hsize⟩ := h.current slot file hfile hstale
  refine ⟨hused, ?_, ?_⟩
  · rw [hsize]
    exact h.stored.size_le hused
  · rw [hsize, hdata]
    exact h.stored.padded _ hused

theorem content (hfile : s.vfs.fileAt slot = some file)
    (hstale : s.stale slot = false) :
    file.content = contents (s.vfs.persistent.inodes file.inode).name := by
  obtain ⟨hdata, hsize⟩ := h.current slot file hfile hstale
  rw [OpenFile.content, hdata, hsize]
  exact h.stored.content _ (h.inUse slot file hfile)

theorem acceptedWrite (hslot : descriptorSlot fd = some slot)
    (hfile : s.vfs.fileAt slot = some file)
    (haccepts : file.accepts bytes = true) (hstale : s.stale slot = false)
    (hgeneration : s.vfs.persistent.super.generation < UINT32_MAX) :
    s.Tracks sectors contents (.write fd bytes) := by
  have hstorable := (h.storable hfile hstale).written haccepts
  have hsuccess := syncFile_succeeds h.stored hstorable hgeneration
  have hwrite : s.vfs.vfsWrite sectors fd bytes =
      ((file.amount bytes : ℤ),
        (s.vfs.syncFile sectors (file.written bytes)).2.setFile slot (file.written bytes)) := by
    simp only [Vfs.vfsWrite, hslot, hfile, haccepts, if_true, hsuccess]
  have hperformed : s.vfs.performed sectors (.write fd bytes) =
      some (slot, .write (s.vfs.persistent.inodes file.inode).name file.offset
        (bytes.take (file.amount bytes))) := by
    have hpositive := (OpenFile.amount_pos haccepts).1
    simp [Vfs.performed, hwrite, hslot, hfile, hpositive]
  have hcontent := (h.storable hfile hstale).content_written bytes
  rw [h.content hfile hstale] at hcontent
  rw [FileRun.Tracks, FileRun.observe, hperformed, Vfs.perform, hwrite]
  simp only [Option.map_some, Option.toList_some, List.foldl_cons, List.foldl_nil, FileUpdate.apply]
  rw [← hcontent]
  have hsynced : (s.vfs.syncFile sectors (file.written bytes)).2.fileAt slot = some file := by
    rw [fileAt_syncFile]
    exact hfile
  refine h.unchanged.afterUpdate hstorable hgeneration _ (file.written bytes) slot
    (.write (s.vfs.persistent.inodes file.inode).name file.offset
      (bytes.take (file.amount bytes))) ⟨rfl, rfl, rfl⟩ (disk_setFile _ _ _)
    (persistent_setFile _ _ _) ?_ ?_ rfl
  · rw [fileAt_setFile hsynced, if_pos rfl]
  · intro other hother
    rw [fileAt_setFile hsynced, if_neg hother, fileAt_syncFile]

theorem write (hcurrent : CopiesCurrent s (.write fd bytes)) :
    s.Tracks sectors contents (.write fd bytes) := by
  cases hslot : descriptorSlot fd with
  | none =>
    simpa [FileRun.Tracks, Vfs.perform, FileRun.observe, Vfs.performed, Vfs.vfsWrite, hslot]
      using h.unchanged
  | some slot =>
    cases hfile : s.vfs.fileAt slot with
    | none =>
      simpa [FileRun.Tracks, Vfs.perform, FileRun.observe, Vfs.performed, Vfs.vfsWrite, hslot,
        hfile] using h.unchanged
    | some file =>
      by_cases haccepts : file.accepts bytes = true
      · have hstale : s.stale slot = false := by
          apply hcurrent.1 slot
          refine ⟨hslot, ?_⟩
          intro file' hfile'
          rw [hfile] at hfile'
          exact Option.some.inj hfile' ▸ haccepts
        have hroom := hcurrent.2 rfl
        exact h.acceptedWrite hslot hfile haccepts hstale (by omega)
      · have hrefused : s.vfs.vfsWrite sectors fd bytes = (file.refusal bytes, s.vfs) := by
          simp [Vfs.vfsWrite, hslot, hfile, haccepts]
        have hperformed : s.vfs.performed sectors (.write fd bytes) = none := by
          have hnonpos := file.refusal_nonpos bytes
          simp [Vfs.performed, hrefused, hnonpos]
        rw [FileRun.Tracks, FileRun.observe, hperformed, Vfs.perform, hrefused]
        exact h.unchanged

/-- An open fails before it has a descriptor, or goes on with the inode of its
name. -/
theorem open_cases (hname : nameAllowed name = true)
    (hcurrent : CopiesCurrent s (.openFile name flags allocated)) :
    ∃ mid, Advances sectors contents s.vfs mid none ∧
      ((∃ code < 0, s.vfs.vfsOpenFlags sectors name flags allocated = (code, mid)) ∨
        ∃ i slot, (mid.persistent.inodes i).used = true ∧
          (mid.persistent.inodes i).name = name ∧
          (truncates flags = true → mid.persistent.super.generation < UINT32_MAX) ∧
          s.vfs.vfsOpenFlags sectors name flags allocated =
            mid.openInode sectors slot i flags allocated) := by
  have hfound : Found sectors contents s.vfs name (s.vfs.findOrCreate sectors name flags) := by
    apply findOrCreate_found h.stored hname
    intro hcreat
    have hroom := hcurrent.2 (by simp [FileEvent.commits, hcreat])
    omega
  have hmid := h.found hfound
  have hready := h.stored.ready
  rcases hresult : s.vfs.findOrCreate sectors name flags with ⟨found, mid⟩
  rw [hresult] at hfound hmid
  refine ⟨mid, hmid, ?_⟩
  cases found with
  | none =>
    refine .inl ⟨-2, by decide, ?_⟩
    simp [Vfs.vfsOpenFlags, hready, hresult]
  | some i =>
    obtain ⟨hused, hnamed⟩ := hfound.found i rfl
    by_cases hmode : (writeRequested flags && (mid.persistent.inodes i).mode &&& 0o200 == 0) = true
    · refine .inl ⟨-13, by decide, ?_⟩
      simp only [Vfs.vfsOpenFlags, hready, hresult, hmode, if_true, Bool.not_true,
        Bool.false_eq_true, if_false]
    · cases hslot : mid.allocateDescriptor with
      | none =>
        refine .inl ⟨-24, by decide, ?_⟩
        simp only [Vfs.vfsOpenFlags, hready, hresult, hmode, hslot, Bool.not_true,
          Bool.false_eq_true, if_false]
      | some slot =>
        refine .inr ⟨i, slot, hused, hnamed, ?_, ?_⟩
        · intro htruncates
          have hroom := hcurrent.2 (by simp [FileEvent.commits, htruncates])
          have hle := hfound.generation
          dsimp only at hle
          omega
        · simp only [Vfs.vfsOpenFlags, hready, hresult, hmode, hslot, Bool.not_true,
            Bool.false_eq_true, if_false]

theorem openFile (hname : nameAllowed name = true)
    (hcurrent : CopiesCurrent s (.openFile name flags allocated)) :
    s.Tracks sectors contents (.openFile name flags allocated) := by
  obtain ⟨mid, hmid, ⟨code, hcode, hfailed⟩ | ⟨i, slot, hused, hnamed, hroom, hopen⟩⟩ :=
    h.open_cases hname hcurrent
  · exact advances_failedOpen hfailed hcode hmid
  · exact hmid.openInode hused hnamed hroom hopen

theorem fresh (hname : nameAllowed name = true)
    (htruncates : truncates flags = false)
    (hcurrent : CopiesCurrent s (.openFile name flags true)) :
    ∀ content ∈ openedContent (s.vfs.vfsOpenFlags sectors name flags true),
      content = contents name := by
  obtain ⟨mid, hmid, ⟨code, hcode, hfailed⟩ | ⟨i, slot, hused, hnamed, -, hopen⟩⟩ :=
    h.open_cases hname hcurrent
  · intro content hcontent
    have hnegative : ¬0 ≤ code := not_le.mpr hcode
    simp [openedContent, hfailed, hnegative] at hcontent
  · intro content hcontent
    have hresult : s.vfs.vfsOpenFlags sectors name flags true =
        ((descriptorNumber slot : ℤ),
          mid.setDescriptor slot (some ⟨1, some ((mid.loadFile i flags).positioned flags)⟩)) := by
      rw [hopen]
      simp only [Vfs.openInode, htruncates, Bool.not_true, Bool.false_eq_true, if_false]
    have hstored : ((mid.loadFile i flags).positioned flags).content = contents name := by
      rw [← hnamed]
      exact hmid.stored.content i hused
    simp [openedContent, hresult, descriptorSlot_number, fileAt_setDescriptor] at hcontent
    rw [← hcontent]
    exact hstored

/-! ## Runs -/

theorem keeps (hevent : event.isWriteBack = true)
    (hcurrent : CopiesCurrent s event) :
    KeepsFiles sectors contents s.vfs (s.vfs.perform sectors event) := by
  cases event with
  | fsync fd => exact h.fsync hcurrent
  | sync => exact h.sync hcurrent
  | close fd => exact h.close hcurrent
  | openFile | openOther | read | write | seek | retain | reboot =>
    simp [FileEvent.isWriteBack] at hevent

theorem advances (hpossible : event.possible = true)
    (hcurrent : CopiesCurrent s event) :
    s.Tracks sectors contents event := by
  cases event with
  | openFile name flags allocated => exact h.openFile hpossible hcurrent
  | write fd bytes => exact h.write hcurrent
  | openOther => exact h.openOther
  | read fd count => exact h.read fd count
  | seek fd offset whence => exact h.seek fd offset whence
  | retain fd => exact h.retain fd
  | fsync fd => exact (h.fsync hcurrent).advances
  | sync => exact (h.sync hcurrent).advances
  | close fd => exact (h.close hcurrent).advances
  | reboot => exact h.reboot

end FileRun.Intact

end Calls

theorem FileRun.Intact.afterStep {sectors : ℕ} (contents : Contents) (s : FileRun)
    (event : FileEvent) (next : FileRun) (h : s.Intact sectors contents)
    (hcurrent : CopiesCurrent s event) (hstep : s.step sectors event = some next) :
    next.Intact sectors ((s.observe sectors event).foldl FileUpdate.apply contents) := by
  unfold FileRun.step at hstep
  split at hstep
  next hpossible =>
    rw [← Option.some.inj hstep]
    exact h.advance (h.advances hpossible hcurrent)
  · simp at hstep

theorem FileRun.Intact.quiet {next : FileRun}
    (h : s.Intact sectors contents) {event : FileEvent} (hevent : event.isWriteBack = true)
    (hcurrent : CopiesCurrent s event) (hstep : s.step sectors event = some next)
    (name : List Byte) : next.vfs.storedContent name = s.vfs.storedContent name := by
  have hkeeps := h.keeps hevent hcurrent
  unfold FileRun.step at hstep
  split at hstep
  · rw [← Option.some.inj hstep]
    dsimp only [FileRun.advance]
    rw [hkeeps.advances.stored.storedContent, h.stored.storedContent, hkeeps.inodes]
  · simp at hstep

theorem FileRun.Intact.updatesKept
    (h : s.Intact sectors contents) : UpdatesKept sectors contents s where
  fresh := fun _ _ hname htruncates hcurrent => h.fresh hname htruncates hcurrent
  quiet := fun _ _ hevent hcurrent hstep => h.quiet hevent hcurrent hstep

theorem formattedFiles_intact
    (hsectors : PERSIST_DATA_START + PERSIST_DATA_SECTORS ≤ sectors) (disk : Disk) :
    (formattedFiles sectors disk).Intact sectors fun _ => [] := by
  rw [formattedFiles, persistentFormat_eq hsectors]
  have hunused : ∀ i, ¬(formattedState.inodes i).used = true := by
    intro i
    simp [formattedState, Inode.zero]
  have hclosed : ∀ slot file, (formattedFiles sectors disk).vfs.fileAt slot ≠ some file := by
    simp [Vfs.fileAt, formattedFiles]
  refine ⟨⟨?_, superMade_format hsectors, rfl, ?_, ?_, ?_, ?_, ?_, fun _ _ => rfl⟩,
    fun slot file h => absurd h (hclosed slot file),
    fun slot file h => absurd h (hclosed slot file), fun _ _ => rfl⟩
  · intro name
    exact congrFun (slot_writeAll_commitWrites disk _ _) name
  all_goals
    intro i
    simp [hunused i]

/-- From a formatted disk, in every run in which each copy that is written back is
one that no other descriptor has overtaken, the contents after the updates of the
run are what a fresh open finds, and a write-back without a write changes
nothing. -/
theorem persistent_updates_kept {sectors : ℕ}
    (hsectors : PERSIST_DATA_START + PERSIST_DATA_SECTORS ≤ sectors) (disk : Disk)
    (events : List FileEvent)
    (hcurrent : Guarded (FileRun.step sectors) CopiesCurrent (formattedFiles sectors disk)
      events) (last : FileRun)
    (hrun : run (FileRun.step sectors) (formattedFiles sectors disk) events = some last) :
    UpdatesKept sectors
      ((observations (FileRun.step sectors) (FileRun.observe sectors)
        (formattedFiles sectors disk) events).foldl FileUpdate.apply fun _ => []) last := by
  have hintact := fold_run FileRun.Intact.afterStep
    (formattedFiles_intact hsectors disk) hcurrent hrun
  exact hintact.updatesKept

theorem copiesCurrent_of_fresh (hfresh : ∀ slot, s.stale slot = false)
    (hroom : s.vfs.persistent.super.generation + 64 ≤ UINT32_MAX) (event : FileEvent) :
    CopiesCurrent s event :=
  ⟨fun slot _ => hfresh slot, fun _ => hroom⟩

/-- The descriptor that is closed was opened after the write. -/
def keptUpdate : List FileEvent :=
  [.openFile [0x61] (NPK_O_CREAT ||| NPK_O_RDWR) true, .write 64 [0x78],
    .openFile [0x61] 0 true, .close 65]

theorem persistent_updates_kept_lateOpen :
    ∃ last, run (FileRun.step 1000) (formattedFiles 1000 blankDisk) keptUpdate = some last ∧
      UpdatesKept 1000
        ((observations (FileRun.step 1000) (FileRun.observe 1000)
          (formattedFiles 1000 blankDisk) keptUpdate).foldl FileUpdate.apply fun _ => [])
        last := by
  refine ⟨_, rfl, persistent_updates_kept (by decide) blankDisk keptUpdate ?_ _ rfl⟩
  refine guarded_cons (copiesCurrent_of_fresh (fun _ => rfl) (by decide) _) rfl ?_
  refine guarded_cons (copiesCurrent_of_fresh (by decide) (by decide) _) rfl ?_
  refine guarded_cons (copiesCurrent_of_fresh (by decide) (by decide) _) rfl ?_
  exact guarded_cons (copiesCurrent_of_fresh (by decide) (by decide) _) rfl
    trivial

/-! ## A close that undoes a write -/

/-- Two descriptors of one file: the first writes, the second is closed. -/
def lostUpdate : List FileEvent :=
  [.openFile [0x61] (NPK_O_CREAT ||| NPK_O_RDWR) true, .openFile [0x61] 0 true,
    .write 64 [0x78], .close 65]

theorem close_undoes_write :
    ∃ last, run (FileRun.step 1000) (formattedFiles 1000 blankDisk) lostUpdate = some last ∧
      (observations (FileRun.step 1000) (FileRun.observe 1000)
        (formattedFiles 1000 blankDisk) lostUpdate).foldl FileUpdate.apply (fun _ => [])
          [0x61] = [0x78] ∧
      openedContent (last.vfs.vfsOpenFlags 1000 [0x61] 0 true) = some [] :=
  ⟨_, rfl, by decide, by decide⟩

end NPKernel
