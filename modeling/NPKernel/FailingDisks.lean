import NPKernel.NpkfsRecovery
import NPKernel.PersistentFiles

/-!
# Persistent files on a disk whose writes can fail

The calls of `src/fs/vfs.c` on persistent files once more, with the answer of the
disk to every `ata_write_sectors` call that they make.  A call that fails may have
written some of its sectors, also all of them: `ata_write_sectors` returns an
error as well when the flush after a sector fails.  The functions that write
nothing are those of `PersistentFiles`.
-/

namespace NPKernel.Failing

open PaddedBuffers BitwiseCrc

def ATA_LBA28_MAX : ℕ := 0x10000000
def PERSIST_SUPER_PRIMARY : ℕ := 1
def PERSIST_INODE_PRIMARY : ℕ := 2
def PERSIST_SUPER_BACKUP : ℕ := 10
def PERSIST_TXN_SECTOR : ℕ := 11
def PERSIST_INODE_BACKUP : ℕ := 12

/-- For every write call of an operation whether it completes, or else the number
of its sectors that it has written when it fails. -/
abbrev WriteAnswers := ℕ → Option ℕ

def WriteAnswers.after (answers : WriteAnswers) (calls : ℕ) : WriteAnswers :=
  fun k => answers (k + calls)

def checkRequest (sectors lba count : ℕ) : Bool :=
  !(ATA_LBA28_MAX ≤ lba || ATA_LBA28_MAX - lba < count || sectors < lba + count)

def ataWriteSectors (sectors : ℕ) (answer : Option ℕ) (lba : ℕ) (writes : List SectorWrite) :
    Bool × List SectorWrite :=
  if checkRequest sectors lba writes.length then
    match answer with
    | none => (true, writes)
    | some written => (false, writes.take written)
  else (false, [])

def writeCalls (sectors : ℕ) (answers : WriteAnswers) :
    List (ℕ × List SectorWrite) → Bool × List SectorWrite
  | [] => (true, [])
  | (lba, writes) :: calls =>
    match ataWriteSectors sectors (answers 0) lba writes with
    | (true, written) =>
      let rest := writeCalls sectors (answers.after 1) calls
      (rest.1, written ++ rest.2)
    | (false, written) => (false, written)

/-! ## Commits, new files and write-backs -/

def commitCalls (super : Superblock) (inodes : InodeTable) : List (ℕ × List SectorWrite) :=
  [(PERSIST_TXN_SECTOR, [.txn (prepareTxn super)]),
    (PERSIST_INODE_BACKUP, inodeWrites .backup inodes),
    (PERSIST_SUPER_BACKUP, [.super .backup super]),
    (PERSIST_INODE_PRIMARY, inodeWrites .primary inodes),
    (PERSIST_SUPER_PRIMARY, [.super .primary super]),
    (PERSIST_TXN_SECTOR, [.txn clearTxn])]

def persistentWriteMetadata (sectors : ℕ) (answers : WriteAnswers) (fs : PersistentState) :
    Bool × List SectorWrite × PersistentState :=
  if commitAllowed sectors fs then
    match writeCalls sectors answers (commitCalls (nextSuper fs) fs.inodes) with
    | (true, writes) => (true, writes, { fs with super := nextSuper fs, activeSlot := false })
    | (false, writes) => (false, writes, fs)
  else (false, [], fs)

def writeExtent (sectors : ℕ) (answers : WriteAnswers) (start : ℕ) (bytes : ℕ → Byte)
    (fs : PersistentState) : Bool × List SectorWrite × PersistentState :=
  match ataWriteSectors sectors (answers 0) start (dataWrites start bytes) with
  | (true, written) =>
    let commit := persistentWriteMetadata sectors (answers.after 1) fs
    (commit.1, written ++ commit.2.1, commit.2.2)
  | (false, written) => (false, written, fs)

def persistentZeroData : ℕ → Byte := fun _ => 0

def persistentCreate (sectors : ℕ) (answers : WriteAnswers) (fs : PersistentState)
    (name : List Byte) : Option (Fin 64) × List SectorWrite × PersistentState :=
  match createSlot sectors fs name with
  | none => (none, [], fs)
  | some i =>
    match writeExtent sectors answers fs.super.nextSector persistentZeroData
        (withNewInode fs i name) with
    | (true, writes, committed) => (some i, writes, committed)
    | (false, writes, created) =>
      let undone := persistentWriteMetadata sectors (answers.after 7) (withoutInode created i)
      (none, writes ++ undone.2.1, undone.2.2)

def persistentSyncDescriptor (sectors : ℕ) (answers : WriteAnswers) (fs : PersistentState)
    (file : OpenFile) : Bool × List SectorWrite × PersistentState :=
  writeExtent sectors answers (fs.inodes file.inode).startSector file.data
    (withSize fs file.inode (file.size % 2 ^ 32))

/-! ## Descriptors -/

def stored (s : Vfs) (writes : List SectorWrite) (fs : PersistentState) : Vfs :=
  { s with disk := s.disk.writeAll writes, persistent := fs }

def syncFile (sectors : ℕ) (answers : WriteAnswers) (s : Vfs) (file : OpenFile) :
    Bool × List SectorWrite × Vfs :=
  let result := persistentSyncDescriptor sectors answers s.persistent file
  (result.1, result.2.1, stored s result.2.1 result.2.2)

def openInode (sectors : ℕ) (answers : WriteAnswers) (s : Vfs) (slot i : Fin 64) (flags : ℕ)
    (loaded : Bool) : ℤ × List SectorWrite × Vfs :=
  if !loaded then (-5, [], s)
  else if truncates flags then
    let file := (s.loadFile i flags).truncated
    match syncFile sectors answers s file with
    | (true, writes, s) =>
      (descriptorNumber slot, writes, s.setDescriptor slot (some ⟨1, some (file.positioned flags)⟩))
    | (false, writes, s) => (-5, writes, s)
  else
    (descriptorNumber slot, [],
      s.setDescriptor slot (some ⟨1, some ((s.loadFile i flags).positioned flags)⟩))

def findOrCreate (sectors : ℕ) (answers : WriteAnswers) (s : Vfs) (name : List Byte)
    (flags : ℕ) : Option (Fin 64) × List SectorWrite × Vfs :=
  match persistentFind s.persistent.inodes name with
  | some i => (some i, [], s)
  | none =>
    if flags &&& NPK_O_CREAT != 0 then
      let created := persistentCreate sectors answers s.persistent name
      (created.1, created.2.1, stored s created.2.1 created.2.2)
    else (none, [], s)

/-- `vfs_open_flags` of the path of a persistent file; `loaded` says whether the
buffer could be allocated and the extent be read. -/
def vfsOpenFlags (sectors : ℕ) (answers : WriteAnswers) (s : Vfs) (name : List Byte)
    (flags : ℕ) (loaded : Bool) : ℤ × List SectorWrite × Vfs :=
  if !s.persistent.ready then (-19, [], s)
  else
    match findOrCreate sectors answers s name flags with
    | (none, writes, s) => (-2, writes, s)
    | (some i, writes, s) =>
      if writeRequested flags && (s.persistent.inodes i).mode &&& 0o200 == 0 then
        (-13, writes, s)
      else
        match s.allocateDescriptor with
        | none => (-24, writes, s)
        | some slot =>
          let opened := openInode sectors (answers.after 13) s slot i flags loaded
          (opened.1, writes ++ opened.2.1, opened.2.2)

/-- The copy after `ata_read_sectors` of the extent, which may stop after some
sectors. -/
def reloaded (disk : Disk) (start : ℕ) (answer : Option ℕ) (data : Buffer Byte) : Buffer Byte :=
  match answer with
  | none => readExtent disk start
  | some sectorsRead =>
    fun k => if k < sectorsRead * NPK_SECTOR_SIZE then readExtent disk start k else data k

def vfsWrite (sectors : ℕ) (answers : WriteAnswers) (s : Vfs) (fd : ℕ) (bytes : List Byte) :
    ℤ × List SectorWrite × Vfs :=
  match descriptorSlot fd with
  | none => (-9, [], s)
  | some slot =>
    match s.fileAt slot with
    | none => (-9, [], s)
    | some file =>
      if file.accepts bytes then
        let written := file.written bytes
        match syncFile sectors answers s written with
        | (true, writes, s) => (file.amount bytes, writes, s.setFile slot written)
        | (false, writes, s) =>
          let start := (s.persistent.inodes file.inode).startSector
          (-5, writes, s.setFile slot
            { written with
              data := reloaded s.disk start (answers 7) written.data
              size := file.size
              offset := if file.size < written.offset then file.size else written.offset })
      else (file.refusal bytes, [], s)

def syncSlot (sectors : ℕ) (answers : WriteAnswers) (s : Vfs) (slot : Fin 64) :
    Bool × List SectorWrite × Vfs :=
  match s.fileAt slot with
  | none => (true, [], s)
  | some file => syncFile sectors answers s file

def vfsSyncFd (sectors : ℕ) (answers : WriteAnswers) (s : Vfs) (fd : ℕ) :
    ℤ × List SectorWrite × Vfs :=
  match descriptorSlot fd with
  | none => (-9, [], s)
  | some slot =>
    match s.descriptors slot with
    | none => (-9, [], s)
    | some _ =>
      let synced := syncSlot sectors answers s slot
      (if synced.1 then 0 else -5, synced.2)

def syncSlots (sectors : ℕ) (answers : WriteAnswers) (s : Vfs) :
    List (Fin 64) → Bool × List SectorWrite × Vfs
  | [] => (true, [], s)
  | slot :: slots =>
    let synced := syncSlot sectors answers s slot
    let rest := syncSlots sectors (answers.after 7) synced.2.2 slots
    (synced.1 && rest.1, synced.2.1 ++ rest.2.1, rest.2.2)

def vfsSyncAll (sectors : ℕ) (answers : WriteAnswers) (s : Vfs) : ℤ × List SectorWrite × Vfs :=
  let synced := syncSlots sectors answers s (List.finRange 64)
  (if synced.1 then 0 else -5, synced.2)

def vfsClose (sectors : ℕ) (answers : WriteAnswers) (s : Vfs) (fd : ℕ) :
    ℤ × List SectorWrite × Vfs :=
  if fd ≤ 2 then (0, [], s)
  else
    match descriptorSlot fd with
    | none => (-9, [], s)
    | some slot =>
      match s.descriptors slot with
      | none => (-9, [], s)
      | some d =>
        if d.refs = 0 then (-9, [], s)
        else if d.refs - 1 ≠ 0 then
          (0, [], s.setDescriptor slot (some { d with refs := d.refs - 1 }))
        else
          let synced := syncSlot sectors answers s slot
          (0, synced.2.1, synced.2.2.setDescriptor slot none)

/-- The writes of `persistent_init`, of `persistent_format` or of the cleared
marker, and the state that it leaves. -/
def persistentInit (sectors : ℕ) (answers : WriteAnswers) (disk : Disk) :
    List SectorWrite × PersistentState :=
  match recoveredSlot sectors disk with
  | none => (persistentWriteMetadata sectors answers formattedState).2
  | some name =>
    (if persistentTxnValid disk.txn && disk.txn.state == PERSIST_TXN_PREPARE then
        (ataWriteSectors sectors (answers 0) PERSIST_TXN_SECTOR [.txn clearTxn]).2
      else [],
      disk.loaded name)

def reboot (sectors : ℕ) (answers : WriteAnswers) (s : Vfs) : List SectorWrite × Vfs :=
  let booted := persistentInit sectors answers s.disk
  (booted.1,
    { disk := s.disk.writeAll booted.1, persistent := booted.2, descriptors := fun _ => none })

end NPKernel.Failing
