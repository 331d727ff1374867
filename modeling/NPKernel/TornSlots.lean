import NPKernel.FileIsolation

/-!
# Torn slots

A commit that fails leaves its slot torn between two tables, and a boot falls
back on the other slot, which may hold an older table.  Commits of that table can
fail as well and tear the slot further.  The boot trusts a slot when its checksum
is the one in the superblock and the number of used inodes is right.  The names of
files can be chosen so that a torn slot passes: then an inode is loaded whose
extent lies behind the used sectors, where the next file will be put.
-/

namespace NPKernel.Failing

open GuardedRuns BitwiseCrc

/-! ## Creations, boots and truncations with given failures -/

def failing (calls : List (ℕ × ℕ)) : WriteAnswers :=
  fun k => (calls.find? fun call => call.1 == k).map Prod.snd

def creating (name : List Byte) (calls : List (ℕ × ℕ)) : FileEvent × WriteAnswers :=
  (.openFile name NPK_O_CREAT true, failing calls)

def committedState (fs : PersistentState) : PersistentState :=
  { fs with super := nextSuper fs, activeSlot := false }

def slotOf (fs : PersistentState) : Slot := ⟨nextSuper fs, fs.inodes⟩

def canCreate (sectors : ℕ) (fs : PersistentState) (file : Fin 64 × List Byte) : Bool :=
  fs.ready && nameAllowed file.2 && persistentFind fs.inodes file.2 == none &&
    createSlot sectors fs file.2 == some file.1 &&
    commitAllowed sectors (withNewInode fs file.1 file.2) &&
    checkRequest sectors fs.super.nextSector PERSIST_DATA_SECTORS

structure Mount.Shows (s : Mount) (fs : PersistentState) (backup primary : Slot) : Prop where
  memory : s.vfs.persistent = fs
  backup : s.vfs.disk.slot .backup = backup
  primary : s.vfs.disk.slot .primary = primary

section Creation

variable {sectors : ℕ} {answers : WriteAnswers} {s : Mount} {fs : PersistentState}
  {backup primary : Slot} {file : Fin 64 × List Byte}

theorem step_creating (h : s.Shows fs backup primary) (hcan : canCreate sectors fs file = true)
    (calls : List (ℕ × ℕ)) :
    ∃ next, s.step sectors (creating file.2 calls) = some next ∧
      next.vfs.persistent = (persistentCreate sectors (failing calls) fs file.2).2.2 ∧
      next.vfs.disk.slot =
        (s.vfs.disk.writeAll (persistentCreate sectors (failing calls) fs file.2).2.1).slot ∧
      next.complete =
        noteWrites s.complete (persistentCreate sectors (failing calls) fs file.2).2.1 := by
  simp only [canCreate, Bool.and_eq_true, beq_iff_eq] at hcan
  obtain ⟨⟨⟨⟨⟨hready, hname⟩, hnew⟩, -⟩, -⟩, -⟩ := hcan
  have hpossible : FileEvent.possible (.openFile file.2 NPK_O_CREAT true) = true := hname
  refine ⟨_, if_pos hpossible, ?_⟩
  have hfind : findOrCreate sectors (failing calls) s.vfs file.2 NPK_O_CREAT =
      ((persistentCreate sectors (failing calls) fs file.2).1,
        (persistentCreate sectors (failing calls) fs file.2).2.1,
        stored s.vfs (persistentCreate sectors (failing calls) fs file.2).2.1
          (persistentCreate sectors (failing calls) fs file.2).2.2) := by
    unfold findOrCreate
    rw [h.memory, hnew]
    rfl
  simp only [creating, perform, vfsOpenFlags, h.memory, hready, Bool.not_true, Bool.false_eq_true,
    if_false, hfind]
  cases (persistentCreate sectors (failing calls) fs file.2).1 with
  | none => exact ⟨rfl, rfl, rfl⟩
  | some i =>
    dsimp only
    split
    · exact ⟨rfl, rfl, rfl⟩
    split
    · exact ⟨rfl, rfl, rfl⟩
    · exact ⟨rfl, rfl, congrArg (noteWrites s.complete) (List.append_nil _)⟩

variable {lba : ℕ} {writes : List SectorWrite} {calls : List (ℕ × List SectorWrite)}

section

variable (hcheck : checkRequest sectors lba writes.length = true)

include hcheck

theorem ataWriteSectors_none : ataWriteSectors sectors none lba writes = (true, writes) := by
  simp [ataWriteSectors, hcheck]

theorem ataWriteSectors_some (k : ℕ) :
    ataWriteSectors sectors (some k) lba writes = (false, writes.take k) := by
  simp [ataWriteSectors, hcheck]

theorem writeCalls_cons_none (hanswer : answers 0 = none) :
    writeCalls sectors answers ((lba, writes) :: calls) =
      ((writeCalls sectors (answers.after 1) calls).1,
        writes ++ (writeCalls sectors (answers.after 1) calls).2) := by
  rw [writeCalls, hanswer, ataWriteSectors_none hcheck]

theorem writeCalls_cons_some {k : ℕ} (hanswer : answers 0 = some k) :
    writeCalls sectors answers ((lba, writes) :: calls) = (false, writes.take k) := by
  rw [writeCalls, hanswer, ataWriteSectors_some hcheck]

end

theorem persistentWriteMetadata_none (hallowed : commitAllowed sectors fs = true)
    (hanswers : ∀ k, answers k = none) :
    persistentWriteMetadata sectors answers fs =
      (true, commitWrites (nextSuper fs) fs.inodes, committedState fs) := by
  have hcalls : ∀ (calls : List (ℕ × List SectorWrite)) (answers : WriteAnswers),
      (∀ call ∈ calls, checkRequest sectors call.1 call.2.length = true) →
      (∀ k, answers k = none) →
        writeCalls sectors answers calls = (true, calls.flatMap Prod.snd) := by
    intro calls
    induction calls with
    | nil => exact fun _ _ _ => rfl
    | cons call calls ih =>
      intro answers hchecks hnone
      rw [writeCalls_cons_none (hchecks call List.mem_cons_self) (hnone 0),
        ih (answers.after 1) (fun c hc => hchecks c (List.mem_cons_of_mem _ hc))
          fun k => hnone (k + 1)]
      rfl
  unfold persistentWriteMetadata
  rw [if_pos hallowed, hcalls _ answers (commitCalls_checked hallowed _ _) hanswers,
    commitCalls_writes]
  rfl

theorem persistentWriteMetadata_noMarker (hallowed : commitAllowed sectors fs = true)
    (hanswer : answers 0 = some 0) :
    persistentWriteMetadata sectors answers fs = (false, [], fs) := by
  have hchecked := commitCalls_checked hallowed (nextSuper fs) fs.inodes
  unfold persistentWriteMetadata
  rw [if_pos hallowed, commitCalls, writeCalls_cons_some (hchecked _ List.mem_cons_self) hanswer]
  rfl

def writesInBackup (fs : PersistentState) (k : ℕ) : List SectorWrite :=
  .txn (prepareTxn (nextSuper fs)) :: (inodeWrites .backup fs.inodes).take k

theorem slot_writesInBackup (disk : Disk) (fs : PersistentState) (k : ℕ) :
    (disk.writeAll (writesInBackup fs k)).slot =
      Function.update disk.slot .backup
        { disk.slot .backup with
          inodes := ((List.range 8).take k).foldl
            (fun table sector => writeInodeSector sector fs.inodes table)
            (disk.slot .backup).inodes } := by
  rw [writesInBackup, Disk.writeAll_cons, inodeWrites, ← List.map_take, slot_writeAll_inodes,
    slot_write_txn]

theorem persistentWriteMetadata_inBackup (hallowed : commitAllowed sectors fs = true)
    (hmarker : answers 0 = none) {k : ℕ} (hanswer : answers 1 = some k) :
    persistentWriteMetadata sectors answers fs = (false, writesInBackup fs k, fs) := by
  have hchecked := commitCalls_checked hallowed (nextSuper fs) fs.inodes
  unfold persistentWriteMetadata
  rw [if_pos hallowed, commitCalls,
    writeCalls_cons_none (hchecked (PERSIST_TXN_SECTOR, [.txn (prepareTxn (nextSuper fs))])
      (by simp [commitCalls])) hmarker,
    writeCalls_cons_some (hchecked (PERSIST_INODE_BACKUP, _) (by simp [commitCalls])) hanswer]
  rfl

theorem persistentWriteMetadata_afterBackup (hallowed : commitAllowed sectors fs = true)
    (hanswers : ∀ k < 3, answers k = none) (hanswer : answers 3 = some 0) :
    persistentWriteMetadata sectors answers fs =
      (false, .txn (prepareTxn (nextSuper fs)) :: (inodeWrites .backup fs.inodes ++
        [.super .backup (nextSuper fs)]), fs) := by
  have hchecked := commitCalls_checked hallowed (nextSuper fs) fs.inodes
  unfold persistentWriteMetadata
  rw [if_pos hallowed, commitCalls,
    writeCalls_cons_none (hchecked (PERSIST_TXN_SECTOR, [.txn (prepareTxn (nextSuper fs))])
      (by simp [commitCalls])) (hanswers 0 (by omega)),
    writeCalls_cons_none (hchecked (PERSIST_INODE_BACKUP, _) (by simp [commitCalls]))
      (hanswers 1 (by omega)),
    writeCalls_cons_none (hchecked (PERSIST_SUPER_BACKUP, _) (by simp [commitCalls]))
      (hanswers 2 (by omega)),
    writeCalls_cons_some (hchecked (PERSIST_INODE_PRIMARY, _) (by simp [commitCalls])) hanswer]
  simp

theorem canCreate_iff :
    canCreate sectors fs file = true ↔
      fs.ready = true ∧ nameAllowed file.2 = true ∧ persistentFind fs.inodes file.2 = none ∧
        createSlot sectors fs file.2 = some file.1 ∧
        commitAllowed sectors (withNewInode fs file.1 file.2) = true ∧
        checkRequest sectors fs.super.nextSector PERSIST_DATA_SECTORS = true := by
  simp only [canCreate, Bool.and_eq_true, beq_iff_eq, and_assoc]

theorem writeExtent_of_commit {start : ℕ} {bytes : ℕ → Byte} {ok : Bool}
    {writes : List SectorWrite} {after : PersistentState}
    (hcheck : checkRequest sectors start PERSIST_DATA_SECTORS = true) (hdata : answers 0 = none)
    (hcommit : persistentWriteMetadata sectors (answers.after 1) fs = (ok, writes, after)) :
    writeExtent sectors answers start bytes fs = (ok, dataWrites start bytes ++ writes, after) := by
  rw [writeExtent, hdata, ataWriteSectors_none (by rwa [dataWrites_length]), hcommit]

theorem Mount.Shows.create (h : s.Shows fs backup primary)
    (hcan : canCreate sectors fs file = true) :
    ∃ next, s.step sectors (creating file.2 []) = some next ∧
      next.Shows (committedState (withNewInode fs file.1 file.2))
        (slotOf (withNewInode fs file.1 file.2)) (slotOf (withNewInode fs file.1 file.2)) := by
  obtain ⟨next, hstep, hmemory, hslots, -⟩ := step_creating h hcan []
  obtain ⟨-, -, -, hslot, hallowed, hcheck⟩ := canCreate_iff.1 hcan
  have hcommit := @persistentWriteMetadata_none sectors ((failing []).after 1)
    (withNewInode fs file.1 file.2) hallowed fun _ => rfl
  have hnone : failing [] 0 = none := rfl
  have hextent := @writeExtent_of_commit sectors (failing []) (withNewInode fs file.1 file.2)
    fs.super.nextSector persistentZeroData _ _ _ hcheck hnone hcommit
  have hcreate : persistentCreate sectors (failing []) fs file.2 =
      (some file.1, dataWrites fs.super.nextSector persistentZeroData ++
        commitWrites (nextSuper (withNewInode fs file.1 file.2))
          (withNewInode fs file.1 file.2).inodes,
        committedState (withNewInode fs file.1 file.2)) := by
    simp only [persistentCreate, hslot, hextent]
  rw [hcreate] at hmemory hslots
  dsimp only at hslots
  rw [Disk.writeAll_append, slot_writeAll_commitWrites] at hslots
  exact ⟨next, hstep, hmemory, congrFun hslots .backup, congrFun hslots .primary⟩

theorem Mount.Shows.failCreate (h : s.Shows fs backup primary)
    (hkept : Kept.InMemory sectors fs) (hallowed : commitAllowed sectors fs = true)
    (hcan : canCreate sectors fs file = true) {calls : List (ℕ × ℕ)}
    (hdata : failing calls 0 = none) (hundo : failing calls 7 = some 0)
    (hcommit : persistentWriteMetadata sectors ((failing calls).after 1)
      (withNewInode fs file.1 file.2) = (false, writes, withNewInode fs file.1 file.2)) :
    ∃ next, s.step sectors (creating file.2 calls) = some next ∧
      next.vfs.persistent = fs ∧
      next.complete = noteWrites s.complete
        (dataWrites fs.super.nextSector persistentZeroData ++ writes) ∧
      ∃ disk : Disk, disk.slot = s.vfs.disk.slot ∧
        next.vfs.disk.slot = (disk.writeAll writes).slot := by
  obtain ⟨next, hstep, hmemory, hslots, hcomplete⟩ := step_creating h hcan calls
  obtain ⟨-, -, -, hslot, -, hcheck⟩ := canCreate_iff.1 hcan
  have hmarker := @persistentWriteMetadata_noMarker sectors ((failing calls).after 7) fs hallowed
    hundo
  have hcreate : persistentCreate sectors (failing calls) fs file.2 =
      (none, dataWrites fs.super.nextSector persistentZeroData ++ writes, fs) := by
    simp only [persistentCreate, hslot, writeExtent_of_commit hcheck hdata hcommit,
      hkept.undone hslot, hmarker, List.append_nil]
  rw [hcreate] at hmemory hslots hcomplete
  dsimp only at hslots
  rw [Disk.writeAll_append] at hslots
  exact ⟨next, hstep, hmemory, hcomplete, _, slot_writeAll_allDataWrites _ _ _, hslots⟩

/-- A creation that fails after `k` inode sectors of the backup slot. -/
theorem Mount.Shows.tearBackup (h : s.Shows fs backup primary) (hkept : Kept.InMemory sectors fs)
    (hallowed : commitAllowed sectors fs = true) (hcan : canCreate sectors fs file = true) (k : ℕ) :
    ∃ next, s.step sectors (creating file.2 [(2, k), (7, 0)]) = some next ∧
      next.complete = noteWrites s.complete (dataWrites fs.super.nextSector persistentZeroData ++
        writesInBackup (withNewInode fs file.1 file.2) k) ∧
      next.Shows fs
        { backup with
          inodes := ((List.range 8).take k).foldl
            (fun table sector =>
              writeInodeSector sector (withNewInode fs file.1 file.2).inodes table)
            backup.inodes } primary := by
  have hcommit := @persistentWriteMetadata_inBackup sectors ((failing [(2, k), (7, 0)]).after 1)
    (withNewInode fs file.1 file.2) (canCreate_iff.1 hcan).2.2.2.2.1 rfl k rfl
  obtain ⟨next, hstep, hmemory, hcomplete, disk, hdisk, hslots⟩ :=
    h.failCreate hkept hallowed hcan rfl rfl hcommit
  refine ⟨next, hstep, hcomplete, hmemory, ?_, ?_⟩
  · rw [hslots, slot_writesInBackup, hdisk, Function.update_self, h.backup]
  · rw [hslots, slot_writesInBackup, hdisk]
    simpa using h.primary

theorem persistentInit_of_recovered {disk : Disk} {name : SlotName}
    (h : recoveredSlot sectors disk = some name) :
    (persistentInit sectors answers disk).2 = disk.loaded name ∧
      (disk.writeAll (persistentInit sectors answers disk).1).slot = disk.slot := by
  unfold persistentInit
  rw [h]
  refine ⟨rfl, ?_⟩
  dsimp only
  split
  · obtain ⟨k, hwrites, -⟩ := @ataWriteSectors_writes sectors (answers 0) PERSIST_TXN_SECTOR
      [.txn clearTxn]
    rw [hwrites]
    refine Disk.writeAll_induct (P := fun d => d.slot = disk.slot) ?_ rfl
    intro w hw d hd
    rw [List.mem_singleton.1 (List.mem_of_mem_take hw)]
    exact hd
  · rfl

theorem Mount.Shows.reboot (h : s.Shows fs backup primary) {name : SlotName}
    (hrecovered : recoveredSlot sectors s.vfs.disk = some name) :
    ∃ next, s.step sectors (.reboot, failing []) = some next ∧
      next.Shows
        { super := (s.vfs.disk.slot name).super
          inodes := (s.vfs.disk.slot name).inodes
          ready := true
          activeSlot := decide (name = .backup) } backup primary ∧
      next.vfs.descriptors = fun _ => none := by
  obtain ⟨hmemory, hslots⟩ := @persistentInit_of_recovered sectors (failing []) s.vfs.disk name
    hrecovered
  exact ⟨⟨(Failing.reboot sectors (failing []) s.vfs).2, _⟩, rfl,
    ⟨hmemory, (congrFun hslots .backup).trans h.backup,
      (congrFun hslots .primary).trans h.primary⟩, rfl⟩

theorem syncFile_inBackup {v : Vfs} {file : OpenFile} (hsize : file.size = 0)
    (hcheck : checkRequest sectors (v.persistent.inodes file.inode).startSector
      PERSIST_DATA_SECTORS = true) (hallowed : commitAllowed sectors v.persistent = true)
    (hdata : answers 0 = none) (hmarker : answers 1 = none) (hbackup : answers 2 = some 1) :
    ∃ disk : Disk, disk.slot = v.disk.slot ∧ (syncFile sectors answers v file).1 = false ∧
      (syncFile sectors answers v file).2.2.persistent = withSize v.persistent file.inode 0 ∧
      (syncFile sectors answers v file).2.2.disk.slot =
        (disk.writeAll (writesInBackup (withSize v.persistent file.inode 0) 1)).slot := by
  have hcommit := @persistentWriteMetadata_inBackup sectors (answers.after 1)
    (withSize v.persistent file.inode 0) hallowed hmarker 1 hbackup
  have hsync : persistentSyncDescriptor sectors answers v.persistent file =
      (false, dataWrites (v.persistent.inodes file.inode).startSector file.data ++
        writesInBackup (withSize v.persistent file.inode 0) 1,
        withSize v.persistent file.inode 0) := by
    rw [persistentSyncDescriptor, hsize, Nat.zero_mod]
    exact writeExtent_of_commit hcheck hdata hcommit
  refine ⟨v.disk.writeAll (dataWrites (v.persistent.inodes file.inode).startSector file.data),
    slot_writeAll_allDataWrites _ _ _, ?_⟩
  simp only [syncFile, hsync, stored, Disk.writeAll_append, and_self]

theorem Mount.Shows.failTruncate (h : s.Shows fs backup primary) {name : List Byte} {i : Fin 64}
    (hname : nameAllowed name = true) (hready : fs.ready = true)
    (hfind : persistentFind fs.inodes name = some i)
    (hmode : ((fs.inodes i).mode &&& 0o200 == 0) = false)
    (hcheck : checkRequest sectors (fs.inodes i).startSector PERSIST_DATA_SECTORS = true)
    (hallowed : commitAllowed sectors fs = true) (hfree : s.vfs.descriptors = fun _ => none) :
    ∃ next, s.step sectors (.openFile name (NPK_O_RDWR ||| NPK_O_TRUNC) true, failing [(15, 1)]) =
        some next ∧
      next.Shows (withSize fs i 0)
        { backup with inodes := writeInodeSector 0 (withSize fs i 0).inodes backup.inodes }
        primary := by
  have hallocate : s.vfs.allocateDescriptor = some 0 := by
    rw [Vfs.allocateDescriptor, hfree]
    decide
  have htruncates : truncates (NPK_O_RDWR ||| NPK_O_TRUNC) = true := rfl
  have hmemory := h.memory
  obtain ⟨disk, hdisk, hfailed, hafter, hslots⟩ := @syncFile_inBackup sectors
    ((failing [(15, 1)]).after 13) s.vfs (s.vfs.loadFile i (NPK_O_RDWR ||| NPK_O_TRUNC)).truncated
    rfl (by rw [hmemory]; exact hcheck) (by rw [hmemory]; exact hallowed) rfl rfl rfl
  refine ⟨_, if_pos hname, ?_⟩
  have hopened : (vfsOpenFlags sectors (failing [(15, 1)]) s.vfs name
      (NPK_O_RDWR ||| NPK_O_TRUNC) true).2.2 =
        (syncFile sectors ((failing [(15, 1)]).after 13) s.vfs
          (s.vfs.loadFile i (NPK_O_RDWR ||| NPK_O_TRUNC)).truncated).2.2 := by
    simp only [vfsOpenFlags, findOrCreate, hmemory, hready, Bool.not_true, Bool.false_eq_true,
      if_false, hfind, hmode, Bool.and_false, hallocate, openInode, htruncates, if_true]
    split
    next heq => simp [heq] at hfailed
    next heq => rw [heq]
  have hbackup := h.backup
  have hprimary := h.primary
  rw [slot_writesInBackup, hdisk] at hslots
  constructor <;> simp only [perform, hopened, hafter, hslots, hmemory]
  · rfl
  · rw [Function.update_self, hbackup]
    rfl
  · exact hprimary

end Creation

/-! ## A torn slot with the right checksum -/

structure Mount.Committed (sectors : ℕ) (s : Mount) (fs : PersistentState) : Prop where
  shows : s.Shows (committedState fs) (slotOf fs) (slotOf fs)
  kept : Kept.InMemory sectors fs

def filled (fs : PersistentState) (files : List (Fin 64 × List Byte)) : PersistentState :=
  files.foldl (fun fs file => withNewInode (committedState fs) file.1 file.2) fs

def canFill (sectors : ℕ) : PersistentState → List (Fin 64 × List Byte) → Bool
  | _, [] => true
  | fs, file :: files =>
    canCreate sectors (committedState fs) file &&
      canFill sectors (withNewInode (committedState fs) file.1 file.2) files

variable {s : Mount} {disk : Disk}

theorem Mount.Committed.fill {sectors : ℕ} {fs : PersistentState}
    (h : s.Committed sectors fs) {files : List (Fin 64 × List Byte)}
    (hcan : canFill sectors fs files = true) :
    ∃ next, run (Mount.step sectors) s (files.map fun file => creating file.2 []) = some next ∧
      next.Committed sectors (filled fs files) := by
  induction files generalizing s fs with
  | nil => exact ⟨s, rfl, h⟩
  | cons file files ih =>
    simp only [canFill, Bool.and_eq_true] at hcan
    obtain ⟨mid, hstep, hmid⟩ := h.shows.create hcan.1
    obtain ⟨-, -, hnew, hslot, -⟩ := canCreate_iff.1 hcan.1
    have hkept : Kept.InMemory sectors (committedState fs) := h.kept.committed
    obtain ⟨next, hrun, hnext⟩ := ih ⟨hmid, hkept.created hnew hslot⟩ hcan.2
    refine ⟨next, ?_, hnext⟩
    rw [List.map_cons, run_cons_some _ hstep]
    exact hrun

def sevenFiles : List (Fin 64 × List Byte) :=
  [(0, [0x61]), (1, [0x62]), (2, [0x63]), (3, [0x64]), (4, [0x65]), (5, [0x66]), (6, [0x67])]

/-- The state in memory with seven files, `a` to `g`. -/
def withSeven : PersistentState := committedState (filled formattedState sevenFiles)

/-- The eighth file `h`, whose commit reaches only the backup slot. -/
def withEighth : PersistentState := withNewInode withSeven 7 [0x68]

/-- The state that a boot loads from that slot. -/
def eightLoaded : PersistentState :=
  { super := nextSuper withEighth, inodes := withEighth.inodes, ready := true, activeSlot := true }

/-- A name such that the sector with the ninth file behind the sector with seven
files has the checksum of the table with eight files. -/
def collidingName : List Byte := [0x74, 0x66, 0x36, 0x4c, 0x7e, 0x22]

def withNinth : PersistentState := withNewInode eightLoaded 8 collidingName

/-- The table of the torn backup slot. -/
def tornTable : InodeTable :=
  writeInodeSector 0 (withSize withSeven 0 0).inodes
    (writeInodeSector 1 withNinth.inodes (writeInodeSector 0 withNinth.inodes withEighth.inodes))

def firstNine : List (Fin 64) := (List.finRange 64).take 9

theorem torn_crc :
    crc 0xedb88320 0xffffffff (firstNine.flatMap fun i => inodeBytes (tornTable i)) =
      crc 0xedb88320 0xffffffff (firstNine.flatMap fun i => inodeBytes (withEighth.inodes i)) := by
  decide +kernel

theorem tornTable_checksum :
    persistentInodeChecksum tornTable = persistentInodeChecksum withEighth.inodes := by
  have hsplit : List.finRange 64 = firstNine ++ (List.finRange 64).drop 9 :=
    (List.take_append_drop 9 _).symm
  have hrest : ((List.finRange 64).drop 9).flatMap (fun i => inodeBytes (tornTable i)) =
      ((List.finRange 64).drop 9).flatMap fun i => inodeBytes (withEighth.inodes i) := by
    decide +kernel
  unfold persistentInodeChecksum persistentChecksumBytes tableBytes
  rw [hsplit, List.flatMap_append, List.flatMap_append, crc_append, crc_append, hrest, torn_crc]

/-- Seven files, an eighth whose commit stops between the slots, and a boot, which
loads the backup slot. -/
def eighthEvents : List (FileEvent × WriteAnswers) :=
  (sevenFiles.map fun file => creating file.2 []) ++
    [creating [0x68] [(4, 0), (7, 0)], (.reboot, failing [])]

/-- A ninth file whose commit stops in the backup slot, a boot, which loads the
primary slot, a truncation that stops in the backup slot, and a boot. -/
def tornEvents : List (FileEvent × WriteAnswers) :=
  [creating collidingName [(2, 2), (7, 0)], (.reboot, failing []),
    (.openFile [0x61] (NPK_O_RDWR ||| NPK_O_TRUNC) true, failing [(15, 1)]),
    (.reboot, failing [])]

theorem formattedMount_committed :
    (formattedMount 2000 blankDisk).Committed 2000 formattedState := by
  have hsectors : PERSIST_DATA_START + PERSIST_DATA_SECTORS ≤ 2000 := by decide
  refine ⟨?_, kept_formatted hsectors⟩
  rw [formattedMount, formattedFiles, persistentFormat_eq hsectors]
  constructor
  · rfl
  · rw [slot_writeAll_commitWrites]
    rfl
  · rw [slot_writeAll_commitWrites]
    rfl

theorem memoryValid_withSeven : MemoryValid 2000 (filled formattedState sevenFiles) :=
  ⟨by decide, by decide, by decide, by decide, by decide⟩

theorem memoryValid_withEighth : MemoryValid 2000 withEighth :=
  ⟨by decide, by decide, by decide, by decide, by decide⟩

theorem slotValid_withSeven :
    persistentSuperSlotValid 2000 (slotOf (filled formattedState sevenFiles)) = true :=
  SuperMade.slotValid (superMade_nextSuper memoryValid_withSeven (by decide))

theorem superMade_withEighth : SuperMade 2000 (nextSuper withEighth) withEighth.inodes :=
  superMade_nextSuper memoryValid_withEighth (by decide)

theorem slotValid_torn :
    persistentSuperSlotValid 2000 ⟨nextSuper withEighth, tornTable⟩ = true := by
  have hmade := superMade_withEighth
  apply SuperMade.slotValid
  exact
    { hmade with
      count := by decide
      inodeChecksum := hmade.inodeChecksum.trans tornTable_checksum.symm
      valid := by decide }

theorem tornTable_not_isolated : ¬Isolated 2000 (nextSuper withEighth) tornTable := by
  intro h
  exact absurd (h.upper 8 (by decide)) (by decide)

theorem slot_refused {slot : Slot}
    (hcount : (usedCount slot.inodes == slot.super.inodeCount) = false) :
    persistentSuperSlotValid 2000 slot = false := by
  rw [persistentSuperSlotValid, hcount, Bool.and_false]

theorem recovers_primary (hbackup : persistentSuperSlotValid 2000 (disk.slot .backup) = false)
    (hprimary : persistentSuperSlotValid 2000 (disk.slot .primary) = true) :
    recoveredSlot 2000 disk = some .primary := by
  simp [recoveredSlot, hbackup, hprimary]

theorem recovers_backup (hbackup : persistentSuperSlotValid 2000 (disk.slot .backup) = true)
    (hnewer : (disk.slot .primary).super.generation < (disk.slot .backup).super.generation) :
    recoveredSlot 2000 disk = some .backup := by
  simp [recoveredSlot, hbackup, hnewer]

theorem run_eightLoaded :
    ∃ s, run (Mount.step 2000) (formattedMount 2000 blankDisk) eighthEvents = some s ∧
      s.Shows eightLoaded (slotOf withEighth) (slotOf (filled formattedState sevenFiles)) ∧
      Kept.InMemory 2000 eightLoaded := by
  obtain ⟨s₁, hrun, h₁⟩ := formattedMount_committed.fill
    (show canFill 2000 formattedState sevenFiles = true by decide)
  have hkept : Kept.InMemory 2000 withSeven := h₁.kept.committed
  have hcan : canCreate 2000 withSeven (7, [0x68]) = true := by decide
  have hcommit := @persistentWriteMetadata_afterBackup 2000 ((failing [(4, 0), (7, 0)]).after 1)
    withEighth (by decide) (by decide) rfl
  obtain ⟨s₂, hstep₂, hmemory, -, disk, hdisk, hslots⟩ :=
    h₁.shows.failCreate hkept (by decide) hcan rfl rfl hcommit
  have h₂ : s₂.Shows withSeven (slotOf withEighth) (slotOf (filled formattedState sevenFiles)) := by
    rw [Disk.writeAll_cons, Disk.writeAll_append, Disk.writeAll_cons, Disk.writeAll_nil,
      slot_write_super, slot_writeAll_inodeWrites, slot_write_txn, hdisk] at hslots
    refine ⟨hmemory, ?_, ?_⟩
    · rw [hslots]
      simp [slotOf]
    · rw [hslots]
      simpa using h₁.shows.primary
  have hboot : recoveredSlot 2000 s₂.vfs.disk = some .backup := by
    apply recovers_backup
    · rw [h₂.backup]
      exact SuperMade.slotValid superMade_withEighth
    · rw [h₂.backup, h₂.primary]
      decide
  obtain ⟨s₃, hstep₃, h₃, -⟩ := h₂.reboot hboot
  rw [h₂.backup] at h₃
  obtain ⟨-, -, hnew, hslot, -⟩ := canCreate_iff.1 hcan
  refine ⟨s₃, ?_, h₃, (hkept.created hnew hslot).committed⟩
  rw [eighthEvents, run_append, hrun, Option.bind_some, run_cons_some _ hstep₂,
    run_cons_some _ hstep₃, run_nil]

theorem run_torn
    (h : s.Shows eightLoaded (slotOf withEighth) (slotOf (filled formattedState sevenFiles)))
    (hkept : Kept.InMemory 2000 eightLoaded) :
    ∃ last, run (Mount.step 2000) s tornEvents = some last ∧
      last.vfs.persistent.super = nextSuper withEighth ∧
      last.vfs.persistent.inodes = tornTable := by
  have hcan : canCreate 2000 eightLoaded (8, collidingName) = true := by decide
  obtain ⟨s₁, hstep₁, -, h₁⟩ := h.tearBackup hkept (by decide) hcan 2
  -- nine inodes are used in the backup slot, and its superblock says eight
  have hboot₁ : recoveredSlot 2000 s₁.vfs.disk = some .primary := by
    apply recovers_primary
    · have hcount : (usedCount (writeInodeSector 1 withNinth.inodes
          (writeInodeSector 0 withNinth.inodes withEighth.inodes)) ==
            (nextSuper withEighth).inodeCount) = false := by decide
      rw [h₁.backup]
      exact slot_refused hcount
    · rw [h₁.primary]
      exact slotValid_withSeven
  obtain ⟨s₂, hstep₂, h₂, hfree⟩ := h₁.reboot hboot₁
  rw [h₁.primary] at h₂
  obtain ⟨s₃, hstep₃, h₃⟩ := @Mount.Shows.failTruncate 2000 s₂ _ _ _ h₂ [0x61] 0 (by decide) rfl
    (by decide) (by decide) (by decide) (by decide) hfree
  have hbackup : s₃.vfs.disk.slot .backup = ⟨nextSuper withEighth, tornTable⟩ := h₃.backup
  have hboot₂ : recoveredSlot 2000 s₃.vfs.disk = some .backup := by
    apply recovers_backup
    · rw [hbackup]
      exact slotValid_torn
    · rw [hbackup, h₃.primary]
      decide
  obtain ⟨last, hstep₄, h₄, -⟩ := h₃.reboot hboot₂
  refine ⟨last, ?_, ?_, ?_⟩
  · rw [tornEvents, run_cons_some _ hstep₁, run_cons_some _ hstep₂, run_cons_some _ hstep₃,
      run_cons_some _ hstep₄, run_nil]
  · rw [h₄.memory, hbackup]
  · rw [h₄.memory, hbackup]

def withFirst : PersistentState := withNewInode (committedState formattedState) 0 [0x61]

/-- A file whose commit stops in the backup slot, and a boot. -/
def refusedEvents : List (FileEvent × WriteAnswers) :=
  [creating [0x61] [(2, 1), (7, 0)], (.reboot, failing [])]

/-- The backup slot is torn and refused, and the boot loads the primary one. -/
theorem persistent_files_apart_refused :
    Guarded (Mount.step 2000) (TornSlotsRefused 2000) (formattedMount 2000 blankDisk)
        refusedEvents ∧
      ∃ last, run (Mount.step 2000) (formattedMount 2000 blankDisk) refusedEvents = some last ∧
        last.vfs.persistent.activeSlot = false ∧ FilesApart 2000 last.vfs := by
  have hformatted := formattedMount_committed
  have hkept : Kept.InMemory 2000 (committedState formattedState) := hformatted.kept.committed
  have hcan : canCreate 2000 (committedState formattedState) (0, [0x61]) = true := by decide
  obtain ⟨s, hstep, hcomplete, hshows⟩ := hformatted.shows.tearBackup hkept (by decide) hcan 1
  -- one inode is used in the backup slot, and its superblock says none
  have hrefused : persistentSuperSlotValid 2000 (s.vfs.disk.slot .backup) = false := by
    have hcount : (usedCount (writeInodeSector 0 withFirst.inodes formattedState.inodes) ==
        (nextSuper formattedState).inodeCount) = false := by decide
    rw [hshows.backup]
    exact slot_refused hcount
  have hprimary : persistentSuperSlotValid 2000 (s.vfs.disk.slot .primary) = true := by
    rw [hshows.primary]
    exact SuperMade.slotValid (superMade_nextSuper ⟨by decide, by decide, by decide, by decide,
      by decide⟩ (by decide))
  obtain ⟨last, hboot, hlast, -⟩ := hshows.reboot (recovers_primary hrefused hprimary)
  have hguard : Guarded (Mount.step 2000) (TornSlotsRefused 2000) (formattedMount 2000 blankDisk)
      refusedEvents := by
    refine guarded_cons (by simp [TornSlotsRefused, creating]) hstep
      (guarded_cons ?_ hboot trivial)
    intro _ name hvalid
    cases name with
    | backup =>
      rw [hrefused] at hvalid
      cases hvalid
    | primary =>
      rw [hcomplete]
      decide
  have hrun : run (Mount.step 2000) (formattedMount 2000 blankDisk) refusedEvents = some last := by
    rw [refusedEvents, run_cons_some _ hstep, run_cons_some _ hboot, run_nil]
  refine ⟨hguard, last, hrun, ?_, persistent_files_apart (by decide) blankDisk _ hguard hrun⟩
  rw [hlast.memory]
  rfl

theorem torn_slot_loaded :
    ∃ last, run (Mount.step 2000) (formattedMount 2000 blankDisk) (eighthEvents ++ tornEvents) =
        some last ∧ ¬FilesApart 2000 last.vfs := by
  obtain ⟨s, hrun, h, hkept⟩ := run_eightLoaded
  obtain ⟨last, hrest, hsuper, hinodes⟩ := run_torn h hkept
  refine ⟨last, ?_, fun hapart => ?_⟩
  · rw [run_append, hrun]
    exact hrest
  · apply tornTable_not_isolated
    rw [← hsuper, ← hinodes]
    exact hapart.isolated

end NPKernel.Failing
