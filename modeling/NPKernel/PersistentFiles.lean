import NPKernel.NpkfsMetadata
import NPKernel.PaddedBuffers

/-!
# Descriptors of persistent files

A descriptor of a file under `/persist` holds a private copy of the whole extent
of the file, its own size and its own offset.  Reads are served from the copy;
writes change the copy and then write all of it back, with its size, through
`persistent_sync_descriptor`, as `fsync`, `sync` and the last `close` do.
Descriptors of other kinds only take up a slot of the table here.
-/

namespace NPKernel

open PaddedBuffers BitwiseCrc

def OPEN_DESCRIPTOR_BASE : ℕ := 64

def NPK_O_WRONLY : ℕ := 0x0001

def NPK_O_RDWR : ℕ := 0x0002

def NPK_O_CREAT : ℕ := 0x0040

def NPK_O_TRUNC : ℕ := 0x0200

def NPK_O_APPEND : ℕ := 0x0400

structure OpenFile where
  inode : Fin 64
  data : Buffer Byte
  size : ℕ
  offset : ℕ
  readable : Bool
  writable : Bool

structure Descriptor where
  refs : ℕ
  file : Option OpenFile

structure Vfs where
  disk : Disk
  persistent : PersistentState
  descriptors : Fin 64 → Option Descriptor

def readExtent (disk : Disk) (start : ℕ) : Buffer Byte :=
  fun k =>
    if k < PERSIST_FILE_BYTES then
      disk.data (start + k / NPK_SECTOR_SIZE) (k % NPK_SECTOR_SIZE)
    else 0

def descriptorSlot (fd : ℕ) : Option (Fin 64) :=
  if h : OPEN_DESCRIPTOR_BASE ≤ fd ∧ fd - OPEN_DESCRIPTOR_BASE < 64 then
    some ⟨fd - OPEN_DESCRIPTOR_BASE, h.2⟩
  else none

def descriptorNumber (slot : Fin 64) : ℕ := OPEN_DESCRIPTOR_BASE + slot

/-! ## What a call does to a file -/

def writeRequested (flags : ℕ) : Bool :=
  flags &&& (NPK_O_WRONLY ||| NPK_O_RDWR) != 0

def truncates (flags : ℕ) : Bool :=
  flags &&& NPK_O_TRUNC != 0 && writeRequested flags

def OpenFile.truncated (file : OpenFile) : OpenFile :=
  { file with data := fun _ => 0, size := 0 }

def OpenFile.positioned (file : OpenFile) (flags : ℕ) : OpenFile :=
  { file with offset := if flags &&& NPK_O_APPEND != 0 then file.size else file.offset }

/-- The checks of `vfs_write` on a persistent descriptor. -/
def OpenFile.accepts (file : OpenFile) (bytes : List Byte) : Bool :=
  file.writable && bytes != [] && file.offset < PERSIST_FILE_BYTES

def OpenFile.refusal (file : OpenFile) (bytes : List Byte) : ℤ :=
  if !file.writable then -9 else if bytes == [] then 0 else -27

def OpenFile.amount (file : OpenFile) (bytes : List Byte) : ℕ :=
  min bytes.length (PERSIST_FILE_BYTES - file.offset)

def OpenFile.written (file : OpenFile) (bytes : List Byte) : OpenFile :=
  let amount := file.amount bytes
  { file with
    data := overwrite file.data file.offset (bytes.take amount)
    offset := file.offset + amount
    size := max file.size (file.offset + amount) }

def OpenFile.seekBase (file : OpenFile) (whence : ℤ) : ℤ :=
  if whence = 0 then 0
  else if whence = 1 then file.offset
  else if whence = 2 then file.size
  else INT64_MIN

namespace Vfs

def fileAt (s : Vfs) (slot : Fin 64) : Option OpenFile :=
  (s.descriptors slot).bind Descriptor.file

def setDescriptor (s : Vfs) (slot : Fin 64) (d : Option Descriptor) : Vfs :=
  { s with descriptors := Function.update s.descriptors slot d }

def setFile (s : Vfs) (slot : Fin 64) (file : OpenFile) : Vfs :=
  { s with
    descriptors := Function.update s.descriptors slot
      ((s.descriptors slot).map fun d => { d with file := some file }) }

def allocateDescriptor (s : Vfs) : Option (Fin 64) :=
  (List.finRange 64).find? fun slot => (s.descriptors slot).isNone

def syncFile (sectors : ℕ) (s : Vfs) (file : OpenFile) : Bool × Vfs :=
  let result := persistentSyncDescriptor sectors s.persistent file.inode file.size file.data
  (result.1, { s with disk := s.disk.writeAll result.2.1, persistent := result.2.2 })

/-! ## Opening -/

/-- The file of a fresh descriptor before `O_TRUNC` and `O_APPEND`. -/
def loadFile (s : Vfs) (i : Fin 64) (flags : ℕ) : OpenFile where
  inode := i
  data := readExtent s.disk (s.persistent.inodes i).startSector
  size := (s.persistent.inodes i).size
  offset := 0
  readable := flags &&& NPK_O_WRONLY == 0
  writable := writeRequested flags

/-- The end of `vfs_open_flags` once the inode and the slot are found; the buffer
may fail to be allocated. -/
def openInode (sectors : ℕ) (s : Vfs) (slot i : Fin 64) (flags : ℕ) (allocated : Bool) : ℤ × Vfs :=
  if !allocated then (-5, s)
  else if truncates flags then
    let file := (s.loadFile i flags).truncated
    let synced := s.syncFile sectors file
    if synced.1 then
      (descriptorNumber slot, synced.2.setDescriptor slot (some ⟨1, some (file.positioned flags)⟩))
    else (-5, synced.2)
  else
    (descriptorNumber slot,
      s.setDescriptor slot (some ⟨1, some ((s.loadFile i flags).positioned flags)⟩))

def findOrCreate (sectors : ℕ) (s : Vfs) (name : List Byte) (flags : ℕ) : Option (Fin 64) × Vfs :=
  match persistentFind s.persistent.inodes name with
  | some i => (some i, s)
  | none =>
    if flags &&& NPK_O_CREAT != 0 then
      let created := persistentCreate sectors s.persistent name
      (created.1,
        { s with disk := s.disk.writeAll created.2.1, persistent := created.2.2 })
    else (none, s)

/-- `vfs_open_flags` of the path of a persistent file. -/
def vfsOpenFlags (sectors : ℕ) (s : Vfs) (name : List Byte) (flags : ℕ)
    (allocated : Bool) : ℤ × Vfs :=
  if !s.persistent.ready then (-19, s)
  else
    match s.findOrCreate sectors name flags with
    | (none, s) => (-2, s)
    | (some i, s) =>
      if writeRequested flags && (s.persistent.inodes i).mode &&& 0o200 == 0 then (-13, s)
      else
        match s.allocateDescriptor with
        | none => (-24, s)
        | some slot => s.openInode sectors slot i flags allocated

def openOther (s : Vfs) : ℤ × Vfs :=
  match s.allocateDescriptor with
  | none => (-24, s)
  | some slot => (descriptorNumber slot, s.setDescriptor slot (some ⟨1, none⟩))

/-! ## Reading, writing and seeking -/

def vfsRead (s : Vfs) (fd count : ℕ) : ℤ × List Byte × Vfs :=
  match descriptorSlot fd with
  | none => (-9, [], s)
  | some slot =>
    match s.fileAt slot with
    | none => (-9, [], s)
    | some file =>
      if !file.readable then (-9, [], s)
      else if file.size ≤ file.offset then (0, [], s)
      else
        let amount := min count (file.size - file.offset)
        (amount, (List.range amount).map fun k => file.data (file.offset + k),
          s.setFile slot { file with offset := file.offset + amount })

def vfsWrite (sectors : ℕ) (s : Vfs) (fd : ℕ) (bytes : List Byte) : ℤ × Vfs :=
  match descriptorSlot fd with
  | none => (-9, s)
  | some slot =>
    match s.fileAt slot with
    | none => (-9, s)
    | some file =>
      if file.accepts bytes then
        let written := file.written bytes
        let synced := s.syncFile sectors written
        if synced.1 then
          (file.amount bytes, synced.2.setFile slot written)
        else
          let start := (synced.2.persistent.inodes file.inode).startSector
          (-5, synced.2.setFile slot
            { written with
              data := readExtent synced.2.disk start
              size := file.size
              offset := min written.offset file.size })
      else (file.refusal bytes, s)

def vfsSeek (s : Vfs) (fd : ℕ) (offset whence : ℤ) : ℤ × Vfs :=
  match descriptorSlot fd with
  | none => (-9, s)
  | some slot =>
    match s.fileAt slot with
    | none => (-9, s)
    | some file =>
      let base := file.seekBase whence
      if base = INT64_MIN ∨ (0 < offset ∧ INT64_MAX - offset < base) ∨
          (offset < 0 ∧ base < INT64_MIN - offset) then (-22, s)
      else if base + offset < 0 then (-22, s)
      else
        (base + offset,
          s.setFile slot { file with offset := (base + offset).toNat })

/-! ## Sharing, syncing and closing -/

def vfsRetain (s : Vfs) (fd : ℕ) : ℤ × Vfs :=
  if fd ≤ 2 then (0, s)
  else
    match descriptorSlot fd with
    | none => (-9, s)
    | some slot =>
      match s.descriptors slot with
      | none => (-9, s)
      | some d =>
        if d.refs = UINT32_MAX then (-9, s)
        else (0, s.setDescriptor slot (some { d with refs := d.refs + 1 }))

def syncSlot (sectors : ℕ) (s : Vfs) (slot : Fin 64) : Bool × Vfs :=
  match s.fileAt slot with
  | none => (true, s)
  | some file => s.syncFile sectors file

def vfsSyncFd (sectors : ℕ) (s : Vfs) (fd : ℕ) : ℤ × Vfs :=
  match descriptorSlot fd with
  | none => (-9, s)
  | some slot =>
    match s.descriptors slot with
    | none => (-9, s)
    | some _ =>
      let synced := s.syncSlot sectors slot
      (if synced.1 then 0 else -5, synced.2)

def vfsSyncAll (sectors : ℕ) (s : Vfs) : ℤ × Vfs :=
  (List.finRange 64).foldl (fun acc slot =>
      let synced := acc.2.syncSlot sectors slot
      (if !synced.1 && acc.1 == 0 then -5 else acc.1, synced.2))
    (0, s)

def vfsClose (sectors : ℕ) (s : Vfs) (fd : ℕ) : ℤ × Vfs :=
  if fd ≤ 2 then (0, s)
  else
    match descriptorSlot fd with
    | none => (-9, s)
    | some slot =>
      match s.descriptors slot with
      | none => (-9, s)
      | some d =>
        if d.refs = 0 then (-9, s)
        else if d.refs - 1 ≠ 0 then
          (0, s.setDescriptor slot (some { d with refs := d.refs - 1 }))
        else (0, (s.syncSlot sectors slot).2.setDescriptor slot none)

/-- A restart between two operations: the memory is lost, the disk is mounted
again. -/
def reboot (sectors : ℕ) (s : Vfs) : Vfs :=
  let result := persistentInit sectors s.disk
  { disk := s.disk.writeAll result.writes
    persistent := result.state
    descriptors := fun _ => none }

end Vfs

end NPKernel
