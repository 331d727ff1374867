import NPKernel.GuardedRuns
import NPKernel.NpkfsMetadata

/-!
# Recovery of NPKFS after a loss of power

A commit overwrites the backup slot first and the primary slot second, whatever
slot the running state was loaded from.  As long as the state came from the
primary slot this is safe: one of the two slots always holds a complete table,
and it is the one with the larger generation.  After a boot that had to load the
backup slot the next commit overwrites the only complete copy, so power must not
be lost during that part of it.
-/

namespace NPKernel

open GuardedRuns BitwiseCrc

variable {fs : PersistentState} {i : Fin 64} {k : ℕ}

/-! ## The system: operations, boots and losses of power -/

inductive FsOperation where
  | create (name : List Byte)
  | sync (file : Fin 64) (size : ℕ) (bytes : ℕ → Byte)

/-- An event with `some k` loses power after `k` of its sector writes. -/
inductive FsEvent where
  | operation (op : FsOperation) (cut : Option ℕ)
  | boot (cut : Option ℕ)

/-- The names that `persistent_extract_name` accepts. -/
def nameAllowed (name : List Byte) : Bool :=
  name != [] && name.length < PERSIST_NAME_CAPACITY && !name.contains 0x2f

/-- What an operation writes, the state it leaves in memory, and the table it
commits. -/
structure Attempt where
  writes : List SectorWrite
  state : PersistentState
  committed : Option InodeTable

def attempt (sectors : ℕ) (fs : PersistentState) : FsOperation → Attempt
  | .create name =>
    if nameAllowed name && (persistentFind fs.inodes name).isNone then
      let created := persistentCreate sectors fs name
      { writes := created.2.1
        state := created.2.2
        committed := created.1.map fun _ => created.2.2.inodes }
    else { writes := [], state := fs, committed := none }
  | .sync file size bytes =>
    let synced := persistentSyncDescriptor sectors fs file size bytes
    { writes := synced.2.1
      state := synced.2.2
      committed := if synced.1 then some synced.2.2.inodes else none }

/-- A descriptor is open on a used inode and never longer than its extent. -/
def operationPossible (fs : PersistentState) : FsOperation → Bool
  | .create _ => true
  | .sync file size _ => (fs.inodes file).used && size ≤ PERSIST_FILE_BYTES

/-- The disk, the memory while the machine is on, the table established by the
last completed commit or boot, and the table of the commit that the last loss of
power interrupted. -/
structure Npkfs where
  disk : Disk
  memory : Option PersistentState
  established : InodeTable
  interrupted : Option InodeTable

def Npkfs.step (sectors : ℕ) (s : Npkfs) : FsEvent → Option Npkfs
  | .operation op cut =>
    match s.memory with
    | none => none
    | some fs =>
      if operationPossible fs op then
        let result := attempt sectors fs op
        match cut with
        | none =>
          some
            { disk := s.disk.writeAll result.writes
              memory := some result.state
              established := result.committed.getD s.established
              interrupted := s.interrupted }
        | some k =>
          some
            { disk := s.disk.writeAll (result.writes.take k)
              memory := none
              established := s.established
              interrupted := result.committed }
      else none
  | .boot cut =>
    let result := persistentInit sectors s.disk
    match cut with
    | none =>
      some
        { disk := s.disk.writeAll result.writes
          memory := some result.state
          established := result.state.inodes
          interrupted := none }
    | some k =>
      some { s with disk := s.disk.writeAll (result.writes.take k), memory := none }

structure BootObservation where
  formatted : Bool
  loaded : InodeTable
  established : InodeTable
  interrupted : Option InodeTable

def Npkfs.observe (sectors : ℕ) (s : Npkfs) : FsEvent → List BootObservation
  | .operation _ _ => []
  | .boot _ =>
    let result := persistentInit sectors s.disk
    [{ formatted := result.formatted, loaded := result.state.inodes,
       established := s.established, interrupted := s.interrupted }]

/-- A boot keeps the disk and loads the last established table or the one whose
commit was interrupted. -/
def BootObservation.Recovers (o : BootObservation) : Prop :=
  o.formatted = false ∧ (o.loaded = o.established ∨ o.interrupted = some o.loaded)

/-- No commit that started from the backup slot loses power between its first
backup inode sector and its backup superblock: the writes number 130 to 137
after the 128 data sectors and the marker. -/
def BackupKept (s : Npkfs) : FsEvent → Prop
  | .operation _ (some k) =>
    ∀ fs, s.memory = some fs → fs.activeSlot = true → ¬(129 < k ∧ k < 138)
  | _ => True

structure SuperMade (sectors : ℕ) (super : Superblock) (inodes : InodeTable) : Prop where
  magic : super.magic = PERSIST_MAGIC
  version : super.version = PERSIST_VERSION
  dataStart : super.dataStart = PERSIST_DATA_START
  count : super.inodeCount = usedCount inodes
  lower : PERSIST_DATA_START ≤ super.nextSector
  upper : super.nextSector ≤ sectors
  generation : super.generation ≠ 0
  checksum : super.checksum = persistentSuperChecksum super
  inodeChecksum : super.inodeChecksum = persistentInodeChecksum inodes
  valid : tableValid sectors inodes = true

structure MemoryValid (sectors : ℕ) (fs : PersistentState) : Prop where
  magic : fs.super.magic = PERSIST_MAGIC
  version : fs.super.version = PERSIST_VERSION
  dataStart : fs.super.dataStart = PERSIST_DATA_START
  lower : PERSIST_DATA_START ≤ fs.super.nextSector
  valid : tableValid sectors fs.inodes = true

theorem usedCount_le (inodes : InodeTable) : usedCount inodes ≤ PERSIST_MAX_FILES := by
  have hle : usedCount inodes ≤ (List.finRange 64).length := List.countP_le_length
  simpa [PERSIST_MAX_FILES] using hle

variable {sectors size a b : ℕ} {slot : Slot} {inodes : InodeTable} {name : SlotName} {disk : Disk}
  {op : FsOperation} {s next : Npkfs} {cut : Option ℕ}

theorem SuperMade.slotValid (h : SuperMade sectors slot.super slot.inodes) :
    persistentSuperSlotValid sectors slot = true := by
  have hcount := usedCount_le slot.inodes
  simp [persistentSuperSlotValid, h.magic, h.version, h.dataStart, h.count, h.lower,
    h.upper, h.generation, ← h.checksum, h.inodeChecksum, h.valid, hcount]

theorem superMade_nextSuper
    (hfs : MemoryValid sectors fs) (hallowed : commitAllowed sectors fs = true) :
    SuperMade sectors (nextSuper fs) fs.inodes := by
  have hupper : fs.super.nextSector ≤ sectors := by
    simp only [commitAllowed, Bool.and_eq_true, Bool.not_eq_true', decide_eq_false_iff_not,
      not_lt] at hallowed
    exact hallowed.1.2
  exact
    { magic := hfs.magic
      version := hfs.version
      dataStart := hfs.dataStart
      count := rfl
      lower := hfs.lower
      upper := hupper
      generation := Nat.succ_ne_zero _
      checksum := by simp only [nextSuper, persistentSuperChecksum]
      inodeChecksum := rfl
      valid := hfs.valid }

theorem tableValid_iff :
    tableValid sectors inodes = true ↔
      ∀ i, (inodes i).used = true → persistentInodeValid sectors (inodes i) = true := by
  simp only [tableValid, List.all_eq_true, List.mem_finRange, Bool.or_eq_true,
    Bool.not_eq_true', forall_const]
  constructor
  · intro h i hi
    rcases h i with hunused | hvalid
    · rw [hi] at hunused
      simp at hunused
    · exact hvalid
  · intro h i
    by_cases hi : (inodes i).used = true
    · exact .inr (h i hi)
    · exact .inl (by simpa using hi)

theorem tableValid_update (h : tableValid sectors inodes = true) {inode : Inode}
    (hinode : inode.used = true → persistentInodeValid sectors inode = true) :
    tableValid sectors (Function.update inodes i inode) = true := by
  rw [tableValid_iff] at h ⊢
  intro j hj
  by_cases hji : j = i
  · subst j
    rw [Function.update_self] at hj ⊢
    exact hinode hj
  · rw [Function.update_of_ne hji] at hj ⊢
    exact h j hj

/-! ## What the writes of a commit do to the slots -/

theorem slot_write_txn (disk : Disk) (txn : Transaction) :
    (disk.write (.txn txn)).slot = disk.slot := rfl

theorem slot_write_data (disk : Disk) (sector : ℕ) (bytes : ℕ → Byte) :
    (disk.write (.data sector bytes)).slot = disk.slot := rfl

theorem slot_write_super (disk : Disk) (name : SlotName) (super : Superblock) :
    (disk.write (.super name super)).slot =
      Function.update disk.slot name { disk.slot name with super := super } := rfl

theorem slot_writeAll_dataWrites (disk : Disk) (start : ℕ) (bytes : ℕ → Byte) (k : ℕ) :
    (disk.writeAll ((dataWrites start bytes).take k)).slot = disk.slot := by
  have hpreserve : ∀ w ∈ (dataWrites start bytes).take k, ∀ d : Disk,
      d.slot = disk.slot → (d.write w).slot = disk.slot := by
    intro w hw d hd
    have hmem := List.mem_of_mem_take hw
    rw [dataWrites, List.mem_map] at hmem
    obtain ⟨j, -, rfl⟩ := hmem
    rw [slot_write_data, hd]
  exact Disk.writeAll_induct hpreserve rfl

theorem writeInodeSectors (ks : List ℕ) (inodes old : InodeTable) (i : Fin 64) :
    ks.foldl (fun t sector => writeInodeSector sector inodes t) old i =
      if i.val / 8 ∈ ks then inodes i else old i := by
  induction ks generalizing old with
  | nil => simp
  | cons k ks ih =>
    rw [List.foldl_cons, ih]
    by_cases hk : i.val / 8 = k
    · simp [writeInodeSector, hk]
    · simp [writeInodeSector, hk]

theorem slot_writeAll_inodes (disk : Disk) (name : SlotName) (ks : List ℕ) (inodes : InodeTable) :
    (disk.writeAll (ks.map fun sector => .inode name sector inodes)).slot =
      Function.update disk.slot name
        { disk.slot name with
          inodes := ks.foldl (fun t sector => writeInodeSector sector inodes t)
            (disk.slot name).inodes } := by
  induction ks generalizing disk with
  | nil => simp
  | cons k ks ih =>
    rw [List.map_cons, Disk.writeAll_cons, ih]
    simp [Disk.write]

theorem slot_writeAll_inodeWrites (disk : Disk) (name : SlotName) (inodes : InodeTable) :
    (disk.writeAll (inodeWrites name inodes)).slot =
      Function.update disk.slot name { disk.slot name with inodes := inodes } := by
  have htable : (List.range 8).foldl (fun t sector => writeInodeSector sector inodes t)
      (disk.slot name).inodes = inodes := by
    funext i
    have hi : i.val / 8 < 8 := by omega
    rw [writeInodeSectors, if_pos (List.mem_range.mpr hi)]
  rw [inodeWrites, slot_writeAll_inodes, htable]

theorem slot_writeAll_take_inodeWrites (disk : Disk) (name : SlotName)
    (inodes : InodeTable) (k : ℕ) :
    ∃ mixed, (disk.writeAll ((inodeWrites name inodes).take k)).slot =
      Function.update disk.slot name { disk.slot name with inodes := mixed } := by
  rw [inodeWrites, ← List.map_take, slot_writeAll_inodes]
  exact ⟨_, rfl⟩

theorem inodeWrites_length (name : SlotName) (inodes : InodeTable) :
    (inodeWrites name inodes).length = 8 := by
  simp [inodeWrites]

theorem commitWrites_eq (super : Superblock) (inodes : InodeTable) :
    commitWrites super inodes =
      .txn (prepareTxn super) :: (inodeWrites .backup inodes ++
        (.super .backup super :: (inodeWrites .primary inodes ++
          [.super .primary super, .txn clearTxn]))) := by
  simp [commitWrites]

/-- The four stages of a commit, by the number of its writes that reached the
disk. -/
theorem slot_writeAll_commit (disk : Disk) (super : Superblock) (inodes : InodeTable) (k : ℕ) :
    (k ≤ 1 ∧ (disk.writeAll ((commitWrites super inodes).take k)).slot = disk.slot) ∨
    (1 < k ∧ k < 10 ∧ ∃ mixed,
      (disk.writeAll ((commitWrites super inodes).take k)).slot =
        Function.update disk.slot .backup
          { disk.slot .backup with inodes := mixed }) ∨
    (10 ≤ k ∧ k < 19 ∧ ∃ mixed,
      (disk.writeAll ((commitWrites super inodes).take k)).slot =
        Function.update (Function.update disk.slot .backup ⟨super, inodes⟩) .primary
          { disk.slot .primary with inodes := mixed }) ∨
    (19 ≤ k ∧
      (disk.writeAll ((commitWrites super inodes).take k)).slot = fun _ => ⟨super, inodes⟩) := by
  rw [commitWrites_eq]
  by_cases hnone : k ≤ 1
  · refine .inl ⟨hnone, ?_⟩
    interval_cases k <;> rfl
  obtain ⟨j, rfl⟩ : ∃ j, k = j + 1 := ⟨k - 1, by omega⟩
  rw [List.take_succ_cons, List.take_append, inodeWrites_length, Disk.writeAll_cons,
    Disk.writeAll_append]
  by_cases hbackup : j ≤ 8
  · refine .inr (.inl ⟨by omega, by omega, ?_⟩)
    have hrest : j - 8 = 0 := by omega
    rw [hrest, List.take_zero, Disk.writeAll_nil]
    exact slot_writeAll_take_inodeWrites _ .backup inodes j
  obtain ⟨m, rfl⟩ : ∃ m, j = m + 9 := ⟨j - 9, by omega⟩
  have hrest : m + 9 - 8 = m + 1 := by omega
  have hall : (inodeWrites .backup inodes).take (m + 9) = inodeWrites .backup inodes := by
    apply List.take_of_length_le
    rw [inodeWrites_length]
    omega
  rw [hrest, hall, List.take_succ_cons, List.take_append, inodeWrites_length,
    Disk.writeAll_cons, Disk.writeAll_append]
  set base := (((disk.write (.txn (prepareTxn super))).writeAll
    (inodeWrites .backup inodes)).write (.super .backup super)) with hbase
  have hslot : base.slot = Function.update disk.slot .backup ⟨super, inodes⟩ := by
    rw [hbase, slot_write_super, slot_writeAll_inodeWrites, slot_write_txn]
    simp
  by_cases hprimary : m ≤ 8
  · refine .inr (.inr (.inl ⟨by omega, by omega, ?_⟩))
    have hnil : m - 8 = 0 := by omega
    obtain ⟨mixed, hmixed⟩ := slot_writeAll_take_inodeWrites base .primary inodes m
    refine ⟨mixed, ?_⟩
    rw [hnil, List.take_zero, Disk.writeAll_nil, hmixed, hslot]
    rfl
  · refine .inr (.inr (.inr ⟨by omega, ?_⟩))
    obtain ⟨n, rfl⟩ : ∃ n, m = n + 9 := ⟨m - 9, by omega⟩
    have hsuper : n + 9 - 8 = n + 1 := by omega
    have hfull : (inodeWrites .primary inodes).take (n + 9) = inodeWrites .primary inodes := by
      apply List.take_of_length_le
      rw [inodeWrites_length]
      omega
    have hclear : ∀ d : Disk, (d.writeAll (List.take n [.txn clearTxn])).slot = d.slot := by
      intro d
      cases n with
      | zero => rfl
      | succ n => simp [slot_write_txn]
    rw [hsuper, hfull, List.take_succ_cons, Disk.writeAll_cons, hclear, slot_write_super,
      slot_writeAll_inodeWrites, hslot]
    funext name
    cases name <;> simp [Function.update]

/-! ## The slot with the current table -/

def Newest (slot : SlotName → Slot) : SlotName → Prop
  | .primary => (slot .backup).super.generation ≤ (slot .primary).super.generation
  | .backup => (slot .primary).super.generation < (slot .backup).super.generation

/-- The named slot is complete and at least as new as the other one, whose
content does not matter. -/
structure Current (sectors : ℕ) (slot : SlotName → Slot) (name : SlotName)
    (inodes : InodeTable) : Prop where
  made : SuperMade sectors (slot name).super inodes
  stored : (slot name).inodes = inodes
  newest : Newest slot name

theorem Current.slotValid {slot : SlotName → Slot} (h : Current sectors slot name inodes) :
    persistentSuperSlotValid sectors (slot name) = true := by
  apply SuperMade.slotValid
  rw [h.stored]
  exact h.made

theorem Current.recovered (h : Current sectors disk.slot name inodes) :
    recoveredSlot sectors disk = some name := by
  have hvalid := h.slotValid
  have hnewest := h.newest
  cases name with
  | primary =>
    have hle : ¬(disk.slot .primary).super.generation <
        (disk.slot .backup).super.generation := Nat.not_lt.mpr hnewest
    simp [recoveredSlot, hvalid, hle]
  | backup =>
    have hlt : (disk.slot .primary).super.generation <
        (disk.slot .backup).super.generation := hnewest
    simp [recoveredSlot, hvalid, hlt]

theorem Current.generation_le {slot : SlotName → Slot} (h : Current sectors slot name inodes)
    (other : SlotName) :
    (slot other).super.generation ≤ (slot name).super.generation := by
  have hnewest := h.newest
  cases name with
  | primary =>
    cases other with
    | primary => exact le_refl _
    | backup => exact hnewest
  | backup =>
    cases other with
    | primary => exact le_of_lt hnewest
    | backup => exact le_refl _

section Commit

variable {sectors : ℕ} {disk : Disk} {name : SlotName} {inodes newInodes : InodeTable}
  {super : Superblock}

theorem slot_writeAll_fullCommit (disk : Disk) (super : Superblock) (inodes : InodeTable)
    (hk : 19 ≤ k) :
    (disk.writeAll ((commitWrites super inodes).take k)).slot = fun _ => ⟨super, inodes⟩ := by
  rcases slot_writeAll_commit disk super inodes k with
    ⟨hstage, -⟩ | ⟨-, hstage, -⟩ | ⟨-, hstage, -⟩ | ⟨-, hslot⟩
  · omega
  · omega
  · omega
  · exact hslot

theorem slot_writeAll_commitWrites (disk : Disk) (super : Superblock) (inodes : InodeTable) :
    (disk.writeAll (commitWrites super inodes)).slot = fun _ => ⟨super, inodes⟩ := by
  have hlength : (commitWrites super inodes).length = 20 := by
    rw [commitWrites_eq]
    simp [inodeWrites_length]
  have hfull := slot_writeAll_fullCommit disk super inodes (show 19 ≤ 20 by decide)
  rwa [List.take_of_length_le (le_of_eq hlength)] at hfull

/-- Wherever a commit stops, a complete newest slot holds the table before it or
the table it was writing, unless it stops while it overwrites a backup slot that
was the current one. -/
theorem Current.afterInterruptedCommit (h : Current sectors disk.slot name inodes)
    (hmade : SuperMade sectors super newInodes)
    (hgeneration : super.generation = (disk.slot name).super.generation + 1)
    (hk : name = .backup → ¬(1 < k ∧ k < 10)) :
    ∃ current, Current sectors
        (disk.writeAll ((commitWrites super newInodes).take k)).slot current inodes ∨
      Current sectors
        (disk.writeAll ((commitWrites super newInodes).take k)).slot current newInodes := by
  rcases slot_writeAll_commit disk super newInodes k with
    ⟨-, hslot⟩ | ⟨hlow, hhigh, mixed, hslot⟩ | ⟨-, -, mixed, hslot⟩ | ⟨-, hslot⟩
  · rw [hslot]
    exact ⟨name, .inl h⟩
  · cases name with
    | backup => exact absurd ⟨hlow, hhigh⟩ (hk rfl)
    | primary =>
      rw [hslot]
      refine ⟨.primary, .inl ⟨?_, ?_, ?_⟩⟩
      · simpa using h.made
      · simpa using h.stored
      · simpa [Newest] using h.newest
  · rw [hslot]
    refine ⟨.backup, .inr ⟨?_, ?_, ?_⟩⟩
    · simpa using hmade
    · simp
    · have hle := h.generation_le .primary
      have hlt : (disk.slot .primary).super.generation < super.generation := by omega
      simpa [Newest] using hlt
  · rw [hslot]
    exact ⟨.primary, .inr ⟨hmade, rfl, le_refl _⟩⟩

end Commit

/-! ## What an operation attempts -/

/-- An operation that commits writes the data of a file and then the commit of a
valid state, which it leaves in memory. -/
structure Commits (sectors : ℕ) (fs : PersistentState) (result : Attempt)
    (committing : PersistentState) : Prop where
  valid : MemoryValid sectors committing
  allowed : commitAllowed sectors committing = true
  generation : committing.super.generation = fs.super.generation
  writes : ∃ start bytes, result.writes =
    dataWrites start bytes ++ commitWrites (nextSuper committing) committing.inodes
  state : result.state =
    { committing with super := nextSuper committing, activeSlot := false }
  committed : result.committed = some committing.inodes

structure Refused (sectors : ℕ) (fs : PersistentState) (result : Attempt) : Prop where
  valid : MemoryValid sectors result.state
  generation : result.state.super.generation = fs.super.generation
  activeSlot : result.state.activeSlot = fs.activeSlot
  slots : ∀ (disk : Disk) (k : ℕ), (disk.writeAll (result.writes.take k)).slot = disk.slot
  allWrites : ∀ disk : Disk, (disk.writeAll result.writes).slot = disk.slot
  committed : result.committed = none

theorem dataWrites_length (start : ℕ) (bytes : ℕ → Byte) :
    (dataWrites start bytes).length = 128 := by
  simp [dataWrites, PERSIST_DATA_SECTORS]

theorem slot_writeAll_allDataWrites (disk : Disk) (start : ℕ) (bytes : ℕ → Byte) :
    (disk.writeAll (dataWrites start bytes)).slot = disk.slot := by
  have htake := slot_writeAll_dataWrites disk start bytes 128
  rwa [List.take_of_length_le (le_of_eq (dataWrites_length start bytes))] at htake

section

variable (h : MemoryValid sectors fs)

include h

theorem memoryValid_withSize
    (hused : (fs.inodes i).used = true) (hsize : size ≤ PERSIST_FILE_BYTES) :
    MemoryValid sectors (withSize fs i size) := by
  have hvalid : persistentInodeValid sectors (fs.inodes i) = true :=
    tableValid_iff.mp h.valid i hused
  have hresized : persistentInodeValid sectors { fs.inodes i with size := size } = true := by
    simp only [persistentInodeValid] at hvalid ⊢
    simp_all
  exact ⟨h.magic, h.version, h.dataStart, h.lower, tableValid_update h.valid fun _ => hresized⟩

theorem memoryValid_withNewInode {name : List Byte}
    (hname : nameAllowed name = true) (hslot : createSlot sectors fs name = some i) :
    MemoryValid sectors (withNewInode fs i name) := by
  have hroom : fs.super.nextSector ≤ sectors ∧
      PERSIST_DATA_SECTORS ≤ sectors - fs.super.nextSector := by
    unfold createSlot at hslot
    split at hslot
    next hchecks =>
      simp only [Bool.and_eq_true, decide_eq_true_eq] at hchecks
      exact ⟨hchecks.1.2, hchecks.2⟩
    · simp at hslot
  have hinode : persistentInodeValid sectors (newInode fs.super.nextSector name) = true := by
    have hlower := h.lower
    simp only [nameAllowed, Bool.and_eq_true, bne_iff_ne, ne_eq, decide_eq_true_eq] at hname
    simp [persistentInodeValid, newInode, hname.1.1, Nat.not_le.mpr hname.1.2,
      Nat.not_lt.mpr hlower, Nat.not_lt.mpr hroom.1, Nat.not_lt.mpr hroom.2]
  refine ⟨h.magic, h.version, h.dataStart, ?_, tableValid_update h.valid fun _ => hinode⟩
  exact le_trans h.lower (Nat.le_add_right _ _)

/-- A refused commit of a new inode is refused again after the undo: only the
generation can have been the reason. -/
theorem commitAllowed_withoutInode {name : List Byte} (hslot : createSlot sectors fs name = some i)
    (hrefused : commitAllowed sectors (withNewInode fs i name) = false) :
    commitAllowed sectors (withoutInode (withNewInode fs i name) i) = false := by
  unfold createSlot at hslot
  split at hslot
  next hchecks =>
    have hlower := h.lower
    simp only [Bool.and_eq_true, decide_eq_true_eq] at hchecks
    have hbelow : ¬fs.super.nextSector + PERSIST_DATA_SECTORS < PERSIST_DATA_START := by omega
    have habove : ¬sectors < fs.super.nextSector + PERSIST_DATA_SECTORS := by omega
    simp [commitAllowed, withNewInode, hchecks.1.1.1.1, hbelow, habove] at hrefused
    simp [commitAllowed, withoutInode, withNewInode, hrefused]
  · simp at hslot

theorem memoryValid_undone {name : List Byte}
    (hcreated : MemoryValid sectors (withNewInode fs i name)) :
    MemoryValid sectors (withoutInode (withNewInode fs i name) i) := by
  have hvalid : tableValid sectors (withoutInode (withNewInode fs i name) i).inodes = true :=
    tableValid_update hcreated.valid (by simp [Inode.zero])
  have hlower := h.lower
  constructor
  · simpa only [withoutInode, withNewInode] using h.magic
  · simpa only [withoutInode, withNewInode] using h.version
  · simpa only [withoutInode, withNewInode] using h.dataStart
  · simpa only [withoutInode, withNewInode, Nat.add_sub_cancel] using hlower
  · exact hvalid

theorem refused_nothing :
    Refused sectors fs { writes := [], state := fs, committed := none } :=
  ⟨h, rfl, rfl, fun disk k => by simp, fun disk => rfl, rfl⟩

omit h in
theorem refused_dataWrites {after : PersistentState} (h : MemoryValid sectors after)
    (hgeneration : after.super.generation = fs.super.generation)
    (hactive : after.activeSlot = fs.activeSlot) (start : ℕ) (bytes : ℕ → Byte) :
    Refused sectors fs
      { writes := dataWrites start bytes, state := after, committed := none } :=
  ⟨h, hgeneration, hactive, fun disk k => slot_writeAll_dataWrites disk start bytes k,
    fun disk => slot_writeAll_allDataWrites disk start bytes, rfl⟩

theorem attempt_create_cases (name : List Byte) :
    Refused sectors fs (attempt sectors fs (.create name)) ∨
      ∃ committing, Commits sectors fs (attempt sectors fs (.create name)) committing := by
  unfold attempt
  dsimp only
  split
  next hname =>
    rw [Bool.and_eq_true] at hname
    unfold persistentCreate
    cases hslot : createSlot sectors fs name with
    | none => exact .inl (refused_nothing h)
    | some i =>
      have hcreated := memoryValid_withNewInode h hname.1 hslot
      cases hallowed : commitAllowed sectors (withNewInode fs i name) with
      | true =>
        refine .inr ⟨withNewInode fs i name, ?_⟩
        simp only [persistentWriteMetadata, hallowed, if_true, Option.map_some]
        exact ⟨hcreated, hallowed, rfl, ⟨_, _, rfl⟩, rfl, rfl⟩
      | false =>
        have hagain := commitAllowed_withoutInode h hslot hallowed
        simp only [persistentWriteMetadata, hallowed, hagain, Bool.false_eq_true,
          if_false, List.append_nil, Option.map_none]
        exact .inl (refused_dataWrites (memoryValid_undone h hcreated)
          (by simp only [withoutInode, withNewInode])
          (by simp only [withoutInode, withNewInode]) _ _)
  · exact .inl (refused_nothing h)

theorem attempt_sync_cases (bytes : ℕ → Byte)
    (hpossible : operationPossible fs (.sync i size bytes) = true) :
    Refused sectors fs (attempt sectors fs (.sync i size bytes)) ∨
      ∃ committing, Commits sectors fs (attempt sectors fs (.sync i size bytes)) committing := by
  simp only [operationPossible, Bool.and_eq_true, decide_eq_true_eq] at hpossible
  have hresized := memoryValid_withSize h hpossible.1 hpossible.2
  unfold attempt persistentSyncDescriptor
  dsimp only
  cases hallowed : commitAllowed sectors (withSize fs i size) with
  | true =>
    refine .inr ⟨withSize fs i size, ?_⟩
    simp only [persistentWriteMetadata, hallowed, if_true]
    exact ⟨hresized, hallowed, rfl, ⟨_, _, rfl⟩, rfl, rfl⟩
  | false =>
    have hgeneration : (withSize fs i size).super.generation = fs.super.generation := rfl
    have hactive : (withSize fs i size).activeSlot = fs.activeSlot := rfl
    simp only [persistentWriteMetadata, hallowed, Bool.false_eq_true, if_false, List.append_nil]
    exact .inl (refused_dataWrites hresized hgeneration hactive _ _)

theorem attempt_cases (hpossible : operationPossible fs op = true) :
    Refused sectors fs (attempt sectors fs op) ∨
      ∃ committing, Commits sectors fs (attempt sectors fs op) committing := by
  cases op with
  | create name => exact attempt_create_cases h name
  | sync file size bytes => exact attempt_sync_cases h bytes hpossible

end

/-! ## The invariant of a run -/

structure Mirrors (sectors : ℕ) (s : Npkfs) (fs : PersistentState) (name : SlotName) : Prop where
  current : Current sectors s.disk.slot name s.established
  valid : MemoryValid sectors fs
  activeSlot : fs.activeSlot = decide (name = .backup)
  generation : fs.super.generation = (s.disk.slot name).super.generation

/-- While the machine is on the memory mirrors the current slot; while it is off
the current slot holds the established or the interrupted table. -/
def Npkfs.Recoverable (sectors : ℕ) (s : Npkfs) : Prop :=
  match s.memory with
  | some fs => ∃ name, Mirrors sectors s fs name
  | none => ∃ name inodes, Current sectors s.disk.slot name inodes ∧
      (inodes = s.established ∨ s.interrupted = some inodes)

theorem Npkfs.Recoverable.current (h : s.Recoverable sectors) :
    ∃ name inodes, Current sectors s.disk.slot name inodes ∧
      (inodes = s.established ∨ s.interrupted = some inodes) := by
  unfold Npkfs.Recoverable at h
  split at h
  · obtain ⟨name, hmirrors⟩ := h
    exact ⟨name, s.established, hmirrors.current, .inl rfl⟩
  · exact h

theorem persistentInit_of_current (h : Current sectors disk.slot name inodes) :
    (persistentInit sectors disk).formatted = false ∧
      (persistentInit sectors disk).state.inodes = inodes ∧
      (persistentInit sectors disk).state.super = (disk.slot name).super ∧
      (persistentInit sectors disk).state.activeSlot = decide (name = .backup) ∧
      ∀ k, (disk.writeAll ((persistentInit sectors disk).writes.take k)).slot = disk.slot := by
  unfold persistentInit
  rw [h.recovered]
  refine ⟨rfl, h.stored, rfl, rfl, fun k => ?_⟩
  dsimp only
  split
  · cases k with
    | zero => rfl
    | succ k => simp [slot_write_txn]
  · simp

theorem Npkfs.Recoverable.observe (h : s.Recoverable sectors)
    (event : FsEvent) : ∀ o ∈ s.observe sectors event, o.Recovers := by
  cases event with
  | operation op cut => simp [Npkfs.observe]
  | boot cut =>
    obtain ⟨name, inodes, hcurrent, htable⟩ := h.current
    obtain ⟨hformatted, hloaded, -⟩ := persistentInit_of_current hcurrent
    intro o ho
    simp only [Npkfs.observe, List.mem_singleton] at ho
    subst ho
    refine ⟨hformatted, ?_⟩
    rw [hloaded]
    exact htable

theorem Npkfs.Recoverable.afterBoot (h : s.Recoverable sectors)
    (hstep : s.step sectors (.boot cut) = some next) : next.Recoverable sectors := by
  obtain ⟨name, inodes, hcurrent, htable⟩ := h.current
  obtain ⟨-, hloaded, hsuper, hactive, hslot⟩ := persistentInit_of_current hcurrent
  cases cut with
  | none =>
    simp only [Npkfs.step, Option.some.injEq] at hstep
    subst hstep
    set result := persistentInit sectors s.disk with hresult
    have hall : (s.disk.writeAll result.writes).slot = s.disk.slot := by
      have htake := hslot result.writes.length
      rwa [List.take_length] at htake
    have hmade := hcurrent.made
    refine ⟨name, ⟨?_, ?_, hactive, ?_⟩⟩
    · dsimp only
      rw [hall, hloaded]
      exact hcurrent
    · refine ⟨?_, ?_, ?_, ?_, ?_⟩
      · rw [hsuper]
        exact hmade.magic
      · rw [hsuper]
        exact hmade.version
      · rw [hsuper]
        exact hmade.dataStart
      · rw [hsuper]
        exact hmade.lower
      · rw [hloaded]
        exact hmade.valid
    · dsimp only
      rw [hsuper, hall]
  | some k =>
    simp only [Npkfs.step, Option.some.injEq] at hstep
    subst hstep
    refine ⟨name, inodes, ?_, htable⟩
    dsimp only
    rw [hslot]
    exact hcurrent

/-- The first writes of a committing operation are data; the rest is a prefix of
the commit. -/
theorem Commits.slot_take {committing : PersistentState}
    {result : Attempt} (h : Commits sectors fs result committing) (disk : Disk) (k : ℕ) :
    ∃ base : Disk, base.slot = disk.slot ∧
      (disk.writeAll (result.writes.take k)).slot =
        (base.writeAll ((commitWrites (nextSuper committing) committing.inodes).take
          (k - 128))).slot := by
  obtain ⟨start, bytes, hwrites⟩ := h.writes
  refine ⟨disk.writeAll ((dataWrites start bytes).take k),
    slot_writeAll_dataWrites disk start bytes k, ?_⟩
  rw [hwrites, List.take_append, dataWrites_length, Disk.writeAll_append]

theorem Mirrors.afterCompleted (h : Mirrors sectors s fs name)
    (hpossible : operationPossible fs op = true) :
    Npkfs.Recoverable sectors
      { disk := s.disk.writeAll (attempt sectors fs op).writes
        memory := some (attempt sectors fs op).state
        established := (attempt sectors fs op).committed.getD s.established
        interrupted := s.interrupted } := by
  rcases attempt_cases h.valid hpossible with hrefused | ⟨committing, hcommits⟩
  · have hslot := hrefused.allWrites s.disk
    refine ⟨name, ⟨?_, hrefused.valid, ?_, ?_⟩⟩
    · simpa [hslot, hrefused.committed] using h.current
    · exact hrefused.activeSlot.trans h.activeSlot
    · dsimp only
      rw [hslot, hrefused.generation]
      exact h.generation
  · have hmade := superMade_nextSuper hcommits.valid hcommits.allowed
    obtain ⟨base, -, htake⟩ := hcommits.slot_take s.disk (attempt sectors fs op).writes.length
    have hlength : 19 ≤ (attempt sectors fs op).writes.length - 128 := by
      obtain ⟨start, bytes, hwrites⟩ := hcommits.writes
      rw [hwrites, List.length_append, dataWrites_length, commitWrites_eq]
      simp [inodeWrites_length]
    rw [List.take_length, slot_writeAll_fullCommit _ _ _ hlength] at htake
    refine ⟨.primary, ⟨?_, ?_, ?_, ?_⟩⟩
    · dsimp only
      rw [htake, hcommits.committed]
      exact ⟨hmade, rfl, le_refl _⟩
    · rw [hcommits.state]
      exact ⟨hmade.magic, hmade.version, hmade.dataStart, hmade.lower, hmade.valid⟩
    · rw [hcommits.state]
      rfl
    · dsimp only
      rw [hcommits.state, htake]

theorem Mirrors.afterCut (h : Mirrors sectors s fs name)
    (hpossible : operationPossible fs op = true)
    (hkept : fs.activeSlot = true → ¬(129 < k ∧ k < 138)) :
    Npkfs.Recoverable sectors
      { disk := s.disk.writeAll ((attempt sectors fs op).writes.take k)
        memory := none
        established := s.established
        interrupted := (attempt sectors fs op).committed } := by
  rcases attempt_cases h.valid hpossible with hrefused | ⟨committing, hcommits⟩
  · refine ⟨name, s.established, ?_, .inl rfl⟩
    dsimp only
    rw [hrefused.slots]
    exact h.current
  · have hmade := superMade_nextSuper hcommits.valid hcommits.allowed
    obtain ⟨base, hbase, htake⟩ := hcommits.slot_take s.disk k
    have hcurrent : Current sectors base.slot name s.established := by
      rw [hbase]
      exact h.current
    have hgeneration : (nextSuper committing).generation =
        (base.slot name).super.generation + 1 := by
      rw [hbase, ← h.generation, ← hcommits.generation]
      rfl
    have hstage : name = .backup → ¬(1 < k - 128 ∧ k - 128 < 10) := by
      intro hbackup
      have hactive : fs.activeSlot = true := by
        rw [h.activeSlot, hbackup]
        rfl
      have hwindow := hkept hactive
      omega
    obtain ⟨current, hold | hnew⟩ :=
      hcurrent.afterInterruptedCommit hmade hgeneration hstage
    · refine ⟨current, s.established, ?_, .inl rfl⟩
      dsimp only
      rw [htake]
      exact hold
    · refine ⟨current, committing.inodes, ?_, .inr hcommits.committed⟩
      dsimp only
      rw [htake]
      exact hnew

theorem Npkfs.Recoverable.afterOperation (h : s.Recoverable sectors)
    (hkept : BackupKept s (.operation op cut))
    (hstep : s.step sectors (.operation op cut) = some next) :
    next.Recoverable sectors := by
  unfold Npkfs.Recoverable at h
  cases hmemory : s.memory with
  | none => simp [Npkfs.step, hmemory] at hstep
  | some fs =>
    rw [hmemory] at h
    obtain ⟨name, hmirrors⟩ := h
    by_cases hpossible : operationPossible fs op = true
    · cases cut with
      | none =>
        simp only [Npkfs.step, hmemory, hpossible, if_true, Option.some.injEq] at hstep
        rw [← hstep]
        exact hmirrors.afterCompleted hpossible
      | some k =>
        simp only [Npkfs.step, hmemory, hpossible, if_true, Option.some.injEq] at hstep
        rw [← hstep]
        exact hmirrors.afterCut hpossible (hkept fs hmemory)
    · simp [Npkfs.step, hmemory, hpossible] at hstep

theorem Npkfs.Recoverable.afterStep {sectors : ℕ} (s : Npkfs) (event : FsEvent)
    (next : Npkfs) (h : s.Recoverable sectors) (hkept : BackupKept s event)
    (hstep : s.step sectors event = some next) : next.Recoverable sectors := by
  cases event with
  | operation op cut => exact h.afterOperation hkept hstep
  | boot cut => exact h.afterBoot hstep

theorem formattedState_valid (sectors : ℕ) : MemoryValid sectors formattedState := by
  refine ⟨rfl, rfl, rfl, le_refl _, ?_⟩
  rw [tableValid_iff]
  intro i hi
  simp [formattedState, Inode.zero] at hi

section Format

variable {sectors : ℕ} (hsectors : PERSIST_DATA_START + PERSIST_DATA_SECTORS ≤ sectors)
include hsectors

theorem formattedState_allowed : commitAllowed sectors formattedState = true := by
  have hroom : ¬sectors < PERSIST_DATA_START := by
    have hdata : 0 < PERSIST_DATA_SECTORS := by decide
    omega
  simp [commitAllowed, formattedState, hroom, UINT32_MAX]

theorem persistentFormat_eq :
    persistentFormat sectors =
      (commitWrites (nextSuper formattedState) formattedState.inodes,
        { formattedState with super := nextSuper formattedState, activeSlot := false }) := by
  simp [persistentFormat, persistentWriteMetadata, formattedState_allowed hsectors]

theorem superMade_format : SuperMade sectors (nextSuper formattedState) formattedState.inodes :=
  superMade_nextSuper (formattedState_valid sectors) (formattedState_allowed hsectors)

end Format

def blankDisk : Disk where
  slot := fun _ => ⟨formattedState.super, fun _ => Inode.zero⟩
  txn := clearTxn
  data := fun _ _ => 0

end NPKernel
