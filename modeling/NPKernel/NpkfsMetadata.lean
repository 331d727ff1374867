import NPKernel.BitwiseCrc
import NPKernel.MachineWords

/-!
# NPKFS on the disk

The metadata of the persistent file system of `src/fs/vfs.c`: two slots, each a
superblock and eight sectors of inodes, a transaction marker, and the data
sectors behind them.  Every function that writes returns the list of its sector
writes in order, so that a loss of power is a prefix of that list.
-/

namespace NPKernel

open BitwiseCrc

def PERSIST_MAGIC : ℕ := 0x4e504b46
def PERSIST_VERSION : ℕ := 2
def PERSIST_MAX_FILES : ℕ := 64
def PERSIST_NAME_CAPACITY : ℕ := 48
def PERSIST_DATA_SECTORS : ℕ := 128
def PERSIST_DATA_START : ℕ := 32
def PERSIST_FILE_BYTES : ℕ := 65536
def PERSIST_TXN_MAGIC : ℕ := 0x4e504b54
def PERSIST_TXN_PREPARE : ℕ := 1
def PERSIST_TXN_CLEAR : ℕ := 0
def NPK_SECTOR_SIZE : ℕ := 512

/-- `persistent_inode_disk_t`; the name is the C string without its
terminator. -/
structure Inode where
  used : Bool
  size : ℕ
  startSector : ℕ
  mode : ℕ
  name : List Byte
  deriving DecidableEq, Repr

def Inode.zero : Inode where
  used := false
  size := 0
  startSector := 0
  mode := 0
  name := []

abbrev InodeTable := Fin 64 → Inode

structure Superblock where
  magic : ℕ
  version : ℕ
  inodeCount : ℕ
  dataStart : ℕ
  nextSector : ℕ
  generation : ℕ
  inodeChecksum : Register
  checksum : Register
  deriving DecidableEq, Repr

structure Transaction where
  magic : ℕ
  version : ℕ
  state : ℕ
  targetGeneration : ℕ
  inodeChecksum : Register
  checksum : Register
  deriving DecidableEq, Repr

/-! ## Checksums -/

def persistentChecksumBytes (bytes : List Byte) : Register :=
  ~~~crc 0xedb88320 0xffffffff bytes

def littleEndian32 (value : ℕ) : List Byte :=
  [BitVec.ofNat 8 value, BitVec.ofNat 8 (value / 256), BitVec.ofNat 8 (value / 65536),
    BitVec.ofNat 8 (value / 16777216)]

def inodeBytes (inode : Inode) : List Byte :=
  [if inode.used then 1 else 0, 0, 0, 0] ++ littleEndian32 inode.size ++
    littleEndian32 inode.startSector ++ littleEndian32 inode.mode ++
    (inode.name ++ List.replicate (PERSIST_NAME_CAPACITY - inode.name.length) 0)

def tableBytes (inodes : InodeTable) : List Byte :=
  (List.finRange 64).flatMap fun i => inodeBytes (inodes i)

def persistentInodeChecksum (inodes : InodeTable) : Register :=
  persistentChecksumBytes (tableBytes inodes)

def superblockBytes (super : Superblock) : List Byte :=
  littleEndian32 super.magic ++ littleEndian32 super.version ++
    littleEndian32 super.inodeCount ++ littleEndian32 super.dataStart ++
    littleEndian32 super.nextSector ++ littleEndian32 super.generation ++
    littleEndian32 super.inodeChecksum.toNat ++ littleEndian32 super.checksum.toNat ++
    List.replicate 480 0

def persistentSuperChecksum (super : Superblock) : Register :=
  persistentChecksumBytes (superblockBytes { super with checksum := 0 })

def transactionBytes (txn : Transaction) : List Byte :=
  littleEndian32 txn.magic ++ littleEndian32 txn.version ++ littleEndian32 txn.state ++
    littleEndian32 txn.targetGeneration ++ littleEndian32 txn.inodeChecksum.toNat ++
    littleEndian32 txn.checksum.toNat ++ List.replicate 488 0

def persistentTxnChecksum (txn : Transaction) : Register :=
  persistentChecksumBytes (transactionBytes { txn with checksum := 0 })

/-! ## The disk and its sector writes -/

inductive SlotName where
  | primary | backup
  deriving DecidableEq, Repr

structure Slot where
  super : Superblock
  inodes : InodeTable

structure Disk where
  slot : SlotName → Slot
  txn : Transaction
  data : ℕ → ℕ → Byte

/-- One sector write: the marker, one of the eight inode sectors of a slot, its
superblock, or a data sector. -/
inductive SectorWrite where
  | txn (txn : Transaction)
  | inode (name : SlotName) (sector : ℕ) (inodes : InodeTable)
  | super (name : SlotName) (super : Superblock)
  | data (sector : ℕ) (bytes : ℕ → Byte)

def writeInodeSector (sector : ℕ) (inodes old : InodeTable) : InodeTable :=
  fun i => if i.val / 8 = sector then inodes i else old i

namespace Disk

def write (disk : Disk) : SectorWrite → Disk
  | .txn txn => { disk with txn := txn }
  | .inode name sector inodes =>
    { disk with
      slot := Function.update disk.slot name
        { disk.slot name with
          inodes := writeInodeSector sector inodes (disk.slot name).inodes } }
  | .super name super =>
    { disk with
      slot := Function.update disk.slot name { disk.slot name with super := super } }
  | .data sector bytes => { disk with data := Function.update disk.data sector bytes }

def writeAll (disk : Disk) (writes : List SectorWrite) : Disk :=
  writes.foldl write disk

@[simp]
theorem writeAll_nil (disk : Disk) : disk.writeAll [] = disk := rfl

@[simp]
theorem writeAll_cons (disk : Disk) (w : SectorWrite) (writes : List SectorWrite) :
    disk.writeAll (w :: writes) = (disk.write w).writeAll writes := rfl

theorem writeAll_append (disk : Disk) (first second : List SectorWrite) :
    disk.writeAll (first ++ second) = (disk.writeAll first).writeAll second :=
  List.foldl_append

theorem writeAll_induct {P : Disk → Prop} {writes : List SectorWrite}
    (hwrite : ∀ w ∈ writes, ∀ disk, P disk → P (disk.write w)) {disk : Disk}
    (hdisk : P disk) : P (disk.writeAll writes) := by
  induction writes generalizing disk with
  | nil => exact hdisk
  | cons w writes ih =>
    apply ih
    · intro w' hw'
      exact hwrite w' (List.mem_cons_of_mem _ hw')
    · exact hwrite w List.mem_cons_self disk hdisk

end Disk

def inodeWrites (name : SlotName) (inodes : InodeTable) : List SectorWrite :=
  (List.range 8).map fun sector => .inode name sector inodes

def dataWrites (start : ℕ) (bytes : ℕ → Byte) : List SectorWrite :=
  (List.range PERSIST_DATA_SECTORS).map fun k =>
    .data (start + k) fun j => bytes (NPK_SECTOR_SIZE * k + j)

/-! ## Committing -/

structure PersistentState where
  super : Superblock
  inodes : InodeTable
  ready : Bool
  activeSlot : Bool

def usedCount (inodes : InodeTable) : ℕ :=
  (List.finRange 64).countP fun i => (inodes i).used

def nextSuper (fs : PersistentState) : Superblock :=
  let super := { fs.super with
    generation := fs.super.generation + 1
    inodeCount := usedCount fs.inodes
    inodeChecksum := persistentInodeChecksum fs.inodes
    checksum := 0 }
  { super with checksum := persistentSuperChecksum super }

def prepareTxn (super : Superblock) : Transaction :=
  let txn : Transaction :=
    { magic := PERSIST_TXN_MAGIC, version := PERSIST_VERSION,
      state := PERSIST_TXN_PREPARE, targetGeneration := super.generation,
      inodeChecksum := super.inodeChecksum, checksum := 0 }
  { txn with checksum := persistentTxnChecksum txn }

def clearTxn : Transaction :=
  let txn : Transaction :=
    { magic := PERSIST_TXN_MAGIC, version := PERSIST_VERSION,
      state := PERSIST_TXN_CLEAR, targetGeneration := 0, inodeChecksum := 0, checksum := 0 }
  { txn with checksum := persistentTxnChecksum txn }

def commitWrites (super : Superblock) (inodes : InodeTable) : List SectorWrite :=
  [.txn (prepareTxn super)] ++ inodeWrites .backup inodes ++ [.super .backup super] ++
    inodeWrites .primary inodes ++ [.super .primary super] ++ [.txn clearTxn]

/-- The checks of `persistent_write_metadata` before its first write. -/
def commitAllowed (sectors : ℕ) (fs : PersistentState) : Bool :=
  fs.ready && !(fs.super.nextSector < PERSIST_DATA_START) &&
    !(sectors < fs.super.nextSector) && !(fs.super.generation == UINT32_MAX)

def persistentWriteMetadata (sectors : ℕ) (fs : PersistentState) :
    Bool × List SectorWrite × PersistentState :=
  if commitAllowed sectors fs then
    (true, commitWrites (nextSuper fs) fs.inodes,
      { fs with super := nextSuper fs, activeSlot := false })
  else (false, [], fs)

/-! ## Recovery -/

def persistentInodeValid (sectors : ℕ) (inode : Inode) : Bool :=
  !(!inode.used || inode.name == [] || PERSIST_NAME_CAPACITY ≤ inode.name.length ||
    PERSIST_FILE_BYTES < inode.size || inode.startSector < PERSIST_DATA_START ||
    sectors < inode.startSector || sectors - inode.startSector < PERSIST_DATA_SECTORS)

def tableValid (sectors : ℕ) (inodes : InodeTable) : Bool :=
  (List.finRange 64).all fun i =>
    !(inodes i).used || persistentInodeValid sectors (inodes i)

def persistentSuperSlotValid (sectors : ℕ) (slot : Slot) : Bool :=
  slot.super.magic == PERSIST_MAGIC && slot.super.version == PERSIST_VERSION &&
    slot.super.dataStart == PERSIST_DATA_START &&
    !(PERSIST_MAX_FILES < slot.super.inodeCount) &&
    !(slot.super.nextSector < PERSIST_DATA_START) &&
    !(sectors < slot.super.nextSector) && !(slot.super.generation == 0) &&
    slot.super.checksum == persistentSuperChecksum slot.super &&
    slot.super.inodeChecksum == persistentInodeChecksum slot.inodes &&
    tableValid sectors slot.inodes && usedCount slot.inodes == slot.super.inodeCount

def persistentTxnValid (txn : Transaction) : Bool :=
  txn.magic == PERSIST_TXN_MAGIC && txn.version == PERSIST_VERSION &&
    (txn.state == PERSIST_TXN_PREPARE || txn.state == PERSIST_TXN_CLEAR) &&
    txn.checksum == persistentTxnChecksum txn

def formattedState : PersistentState where
  super :=
    { magic := PERSIST_MAGIC, version := PERSIST_VERSION, inodeCount := 0,
      dataStart := PERSIST_DATA_START, nextSector := PERSIST_DATA_START,
      generation := 0, inodeChecksum := 0, checksum := 0 }
  inodes := fun _ => Inode.zero
  ready := true
  activeSlot := false

def persistentFormat (sectors : ℕ) : List SectorWrite × PersistentState :=
  (persistentWriteMetadata sectors formattedState).2

/-- The slot that a boot loads, `none` when both are invalid. -/
def recoveredSlot (sectors : ℕ) (disk : Disk) : Option SlotName :=
  let primary := persistentSuperSlotValid sectors (disk.slot .primary)
  let backup := persistentSuperSlotValid sectors (disk.slot .backup)
  if !primary && !backup then none
  else if backup && (!primary || (disk.slot .primary).super.generation <
      (disk.slot .backup).super.generation) then some .backup
  else some .primary

structure BootResult where
  formatted : Bool
  writes : List SectorWrite
  state : PersistentState

abbrev Disk.loaded (disk : Disk) (name : SlotName) : PersistentState where
  super := (disk.slot name).super
  inodes := (disk.slot name).inodes
  ready := true
  activeSlot := decide (name = .backup)

/-- `persistent_init` on a present, writable disk with room for a file. -/
def persistentInit (sectors : ℕ) (disk : Disk) : BootResult :=
  match recoveredSlot sectors disk with
  | none =>
    { formatted := true
      writes := (persistentFormat sectors).1
      state := (persistentFormat sectors).2 }
  | some name =>
    { formatted := false
      writes :=
        if persistentTxnValid disk.txn && disk.txn.state == PERSIST_TXN_PREPARE then
          [.txn clearTxn]
        else []
      state := disk.loaded name }

/-! ## Creating and syncing a file -/

def persistentFind (inodes : InodeTable) (name : List Byte) : Option (Fin 64) :=
  (List.finRange 64).find? fun i => (inodes i).used && (inodes i).name == name

def freeInode (inodes : InodeTable) : Option (Fin 64) :=
  (List.finRange 64).find? fun i => !(inodes i).used

def newInode (start : ℕ) (name : List Byte) : Inode where
  used := true
  size := 0
  startSector := start
  mode := 0o100666
  name := name

def createSlot (sectors : ℕ) (fs : PersistentState) (name : List Byte) : Option (Fin 64) :=
  if fs.ready && name.length < PERSIST_NAME_CAPACITY &&
      fs.super.inodeCount < PERSIST_MAX_FILES && fs.super.nextSector ≤ sectors &&
      PERSIST_DATA_SECTORS ≤ sectors - fs.super.nextSector then freeInode fs.inodes
  else none

def withNewInode (fs : PersistentState) (i : Fin 64) (name : List Byte) : PersistentState :=
  { fs with
    inodes := Function.update fs.inodes i (newInode fs.super.nextSector name)
    super := { fs.super with
      nextSector := fs.super.nextSector + PERSIST_DATA_SECTORS
      inodeCount := fs.super.inodeCount + 1 } }

def withoutInode (fs : PersistentState) (i : Fin 64) : PersistentState :=
  { fs with
    inodes := Function.update fs.inodes i Inode.zero
    super := { fs.super with
      nextSector := fs.super.nextSector - PERSIST_DATA_SECTORS
      inodeCount := fs.super.inodeCount - 1 } }

def persistentCreate (sectors : ℕ) (fs : PersistentState) (name : List Byte) :
    Option (Fin 64) × List SectorWrite × PersistentState :=
  match createSlot sectors fs name with
  | none => (none, [], fs)
  | some i =>
    let created := withNewInode fs i name
    let zeroed := dataWrites fs.super.nextSector fun _ => 0
    match persistentWriteMetadata sectors created with
    | (true, writes, committed) => (some i, zeroed ++ writes, committed)
    | (false, _, _) =>
      let undone := persistentWriteMetadata sectors (withoutInode created i)
      (none, zeroed ++ undone.2.1, undone.2.2)

def withSize (fs : PersistentState) (i : Fin 64) (size : ℕ) : PersistentState :=
  { fs with inodes := Function.update fs.inodes i { fs.inodes i with size := size } }

def persistentSyncDescriptor (sectors : ℕ) (fs : PersistentState) (i : Fin 64)
    (size : ℕ) (bytes : ℕ → Byte) : Bool × List SectorWrite × PersistentState :=
  let commit := persistentWriteMetadata sectors (withSize fs i size)
  (commit.1, dataWrites (fs.inodes i).startSector bytes ++ commit.2.1, commit.2.2)

end NPKernel
