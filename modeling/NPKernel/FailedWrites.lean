import NPKernel.FailingDisks
import NPKernel.PersistentUpdates

/-!
# What a failed write leaves behind

`vfs_write` changes the copy, the offset and the size of its descriptor, and
`persistent_sync_descriptor` the size in the inode, before anything is written to
the disk.  When the disk then fails only the size of the descriptor is put back:
the inode keeps the new size, and the offset is only brought back to the old end
of the file.
-/

namespace NPKernel.Failing

open BitwiseCrc

variable {sectors : ℕ} {answers : WriteAnswers} {fs : PersistentState}

/-! ## When a write-back succeeds -/

theorem ataWriteSectors_succeeds {answer : Option ℕ} {lba : ℕ} {writes : List SectorWrite} :
    (ataWriteSectors sectors answer lba writes).1 = true ↔
      checkRequest sectors lba writes.length = true ∧ answer = none := by
  unfold ataWriteSectors
  cases hcheck : checkRequest sectors lba writes.length with
  | false => simp
  | true => cases answer <;> simp

theorem writeCalls_succeeds {calls : List (ℕ × List SectorWrite)} :
    (writeCalls sectors answers calls).1 = true ↔
      (∀ call ∈ calls, checkRequest sectors call.1 call.2.length = true) ∧
        ∀ k < calls.length, answers k = none := by
  induction calls generalizing answers with
  | nil => simp [writeCalls]
  | cons call calls ih =>
    obtain ⟨lba, writes⟩ := call
    have hfirst := @ataWriteSectors_succeeds sectors (answers 0) lba writes
    simp only [writeCalls]
    cases hwrite : ataWriteSectors sectors (answers 0) lba writes with
    | mk ok written =>
      rw [hwrite] at hfirst
      cases ok with
      | false =>
        simp only [Bool.false_eq_true, false_iff, not_and] at hfirst ⊢
        intro hchecks hanswers
        exact hfirst (hchecks _ List.mem_cons_self) (hanswers 0 (by simp))
      | true =>
        obtain ⟨hcheck, hanswer⟩ := hfirst.1 rfl
        simp only [ih, List.forall_mem_cons, hcheck, true_and, List.length_cons]
        refine and_congr_right fun _ => ⟨fun h k hk => ?_, fun h k hk => h (k + 1) (by omega)⟩
        cases k with
        | zero => exact hanswer
        | succ k => exact h k (by omega)

theorem checkRequest_eq_true {lba count : ℕ} :
    checkRequest sectors lba count = true ↔
      lba < ATA_LBA28_MAX ∧ lba + count ≤ ATA_LBA28_MAX ∧ lba + count ≤ sectors := by
  simp only [checkRequest, Bool.not_eq_true', Bool.or_eq_false_iff, decide_eq_false_iff_not]
  omega

/-- The metadata sectors are on every disk that a commit is allowed on. -/
theorem commitCalls_checked (hallowed : commitAllowed sectors fs = true) (super : Superblock)
    (inodes : InodeTable) :
    ∀ call ∈ commitCalls super inodes, checkRequest sectors call.1 call.2.length = true := by
  have hsectors : PERSIST_DATA_START ≤ sectors := by
    simp only [commitAllowed, Bool.and_eq_true, Bool.not_eq_true', decide_eq_false_iff_not,
      not_lt] at hallowed
    exact le_trans hallowed.1.1.2 hallowed.1.2
  have hbelow : ∀ call ∈ commitCalls super inodes, call.1 + call.2.length ≤ PERSIST_DATA_START := by
    simp only [commitCalls, List.forall_mem_cons, inodeWrites_length, List.length_singleton,
      List.not_mem_nil, false_imp_iff, implies_true, and_true]
    decide
  intro call hcall
  have hend := hbelow call hcall
  have hstart : PERSIST_DATA_START < ATA_LBA28_MAX := by decide
  exact checkRequest_eq_true.2 ⟨by omega, by omega, by omega⟩

theorem persistentWriteMetadata_succeeds :
    (persistentWriteMetadata sectors answers fs).1 = true ↔
      commitAllowed sectors fs = true ∧ ∀ k < 6, answers k = none := by
  unfold persistentWriteMetadata
  cases hallowed : commitAllowed sectors fs with
  | false => simp
  | true =>
    have hcalls := @writeCalls_succeeds sectors answers (commitCalls (nextSuper fs) fs.inodes)
    simp only [if_true, true_and]
    rw [show (commitCalls (nextSuper fs) fs.inodes).length = 6 from rfl] at hcalls
    split
    next written hwritten =>
      rw [hwritten] at hcalls
      exact ⟨fun _ => (hcalls.1 rfl).2, fun _ => rfl⟩
    next written hwritten =>
      rw [hwritten] at hcalls
      simp only [Bool.false_eq_true, false_iff] at hcalls ⊢
      exact fun h => hcalls ⟨commitCalls_checked hallowed _ _, h⟩

theorem persistentWriteMetadata_inodes :
    (persistentWriteMetadata sectors answers fs).2.2.inodes = fs.inodes := by
  unfold persistentWriteMetadata
  split
  · split <;> rfl
  · rfl

theorem writeExtent_succeeds {start : ℕ} {bytes : ℕ → Byte} :
    (writeExtent sectors answers start bytes fs).1 = true ↔
      checkRequest sectors start PERSIST_DATA_SECTORS = true ∧
        commitAllowed sectors fs = true ∧ ∀ k < 7, answers k = none := by
  have hdata := @ataWriteSectors_succeeds sectors (answers 0) start (dataWrites start bytes)
  rw [dataWrites_length] at hdata
  unfold writeExtent
  split
  next written hwritten =>
    rw [hwritten] at hdata
    obtain ⟨hcheck, hanswer⟩ := hdata.1 rfl
    rw [persistentWriteMetadata_succeeds]
    refine ⟨fun ⟨hallowed, h⟩ => ⟨hcheck, hallowed, fun k hk => ?_⟩,
      fun ⟨_, hallowed, h⟩ => ⟨hallowed, fun k hk => h (k + 1) (by omega)⟩⟩
    cases k with
    | zero => exact hanswer
    | succ k => exact h k (by omega)
  next written hwritten =>
    rw [hwritten] at hdata
    simp only [Bool.false_eq_true, false_iff] at hdata ⊢
    exact fun h => hdata ⟨h.1, h.2.2 0 (by omega)⟩

theorem writeExtent_inodes {start : ℕ} {bytes : ℕ → Byte} :
    (writeExtent sectors answers start bytes fs).2.2.inodes = fs.inodes := by
  unfold writeExtent
  split
  · exact persistentWriteMetadata_inodes
  · rfl

/-- The disk takes the write-back of a file: its extent is on the disk, a commit is
allowed, and none of the seven write calls fails. -/
def DiskTakes (sectors : ℕ) (answers : WriteAnswers) (fs : PersistentState)
    (file : OpenFile) : Prop :=
  checkRequest sectors (fs.inodes file.inode).startSector PERSIST_DATA_SECTORS = true ∧
    commitAllowed sectors fs = true ∧ ∀ k < 7, answers k = none

theorem syncFile_succeeds_iff {s : Vfs} {file : OpenFile} :
    (syncFile sectors answers s file).1 = true ↔ DiskTakes sectors answers s.persistent file :=
  writeExtent_succeeds

theorem syncFile_inodes {s : Vfs} {file : OpenFile} :
    (syncFile sectors answers s file).2.2.persistent.inodes =
      Function.update s.persistent.inodes file.inode
        { s.persistent.inodes file.inode with size := file.size % 2 ^ 32 } :=
  writeExtent_inodes

/-! ## A failed write -/

/-- The offset and the size of a descriptor and the size in the inode of its file,
which later opens read and later commits write, are those of the state before. -/
def Unnoticed (slot : Fin 64) (file : OpenFile) (before after : Vfs) : Prop :=
  ∃ kept, after.fileAt slot = some kept ∧ kept.offset = file.offset ∧ kept.size = file.size ∧
    (after.persistent.inodes file.inode).size = (before.persistent.inodes file.inode).size

theorem fileAt_setFile_self {s : Vfs} {slot : Fin 64} {before file : OpenFile}
    (h : s.fileAt slot = some before) : (s.setFile slot file).fileAt slot = some file := by
  obtain ⟨d, hd, -⟩ := Option.bind_eq_some_iff.1 h
  simp [Vfs.fileAt, Vfs.setFile, hd]

/-- After a failed write-back the offset is the old one exactly for a write at the
end of the file. -/
theorem restored_offset_eq {offset amount size : ℕ} (hamount : 0 < amount) :
    (if size < offset + amount then size else offset + amount) = offset ↔ offset = size := by
  split <;> omega

theorem written_size_at_end {file : OpenFile} {bytes : List Byte}
    (haccepts : file.accepts bytes = true) (hend : file.offset = file.size) :
    (file.written bytes).size % 2 ^ 32 = file.offset + file.amount bytes := by
  have hoffset : file.offset < PERSIST_FILE_BYTES := by
    simp only [OpenFile.accepts, Bool.and_eq_true, decide_eq_true_eq] at haccepts
    exact haccepts.2
  have hamount : file.amount bytes ≤ PERSIST_FILE_BYTES - file.offset := min_le_right _ _
  simp only [PERSIST_FILE_BYTES] at hoffset hamount
  simp only [OpenFile.written]
  omega

theorem accepted_amount_pos {file : OpenFile} {bytes : List Byte}
    (haccepts : file.accepts bytes = true) : 0 < file.amount bytes := by
  simp only [OpenFile.accepts, Bool.and_eq_true, bne_iff_ne, decide_eq_true_eq] at haccepts
  have hbytes := List.length_pos_iff.2 haccepts.1.2
  simp only [OpenFile.amount]
  omega

theorem failed_write_unnoticed_iff (sectors : ℕ) (answers : WriteAnswers) (s : Vfs) {fd : ℕ}
    {slot : Fin 64} {file : OpenFile} (bytes : List Byte) (hslot : descriptorSlot fd = some slot)
    (hfile : s.fileAt slot = some file) :
    ((vfsWrite sectors answers s fd bytes).1 < 0 →
        Unnoticed slot file s (vfsWrite sectors answers s fd bytes).2.2) ↔
      file.accepts bytes = false ∨ DiskTakes sectors answers s.persistent file ∨
        (file.offset = file.size ∧
          (s.persistent.inodes file.inode).size = file.offset + file.amount bytes) := by
  unfold vfsWrite
  simp only [hslot, hfile]
  cases haccepts : file.accepts bytes with
  | false =>
    simp only [Bool.false_eq_true, if_false, true_or, iff_true]
    exact fun _ => ⟨file, hfile, rfl, rfl, rfl⟩
  | true =>
    have hamount := accepted_amount_pos haccepts
    have hdisk : (syncFile sectors answers s (file.written bytes)).1 = true ↔
        DiskTakes sectors answers s.persistent file := syncFile_succeeds_iff
    have hinodes := @syncFile_inodes sectors answers s (file.written bytes)
    simp only [if_true, Bool.true_eq_false, false_or]
    split
    next writes after hsynced =>
      rw [hsynced] at hdisk
      simp only [hdisk.1 rfl, true_or, iff_true]
      omega
    next writes after hsynced =>
      rw [hsynced] at hdisk hinodes
      have htakes : ¬DiskTakes sectors answers s.persistent file :=
        fun h => Bool.false_ne_true (hdisk.2 h)
      have hopen : after.fileAt slot = some file := by
        have hvfs : after = (syncFile sectors answers s (file.written bytes)).2.2 := by
          rw [hsynced]
        rw [hvfs]
        exact hfile
      have hrecorded : (after.persistent.inodes file.inode).size =
          (file.written bytes).size % 2 ^ 32 := by
        dsimp only at hinodes
        rw [hinodes]
        simp [OpenFile.written]
      simp only [htakes, false_or]
      rw [Unnoticed]
      simp only [fileAt_setFile_self hopen, Option.some.injEq]
      constructor
      · intro h
        obtain ⟨kept, rfl, hoffset, -, hsize⟩ := h (by decide)
        have hend := (restored_offset_eq hamount).1 hoffset
        refine ⟨hend, ?_⟩
        rw [← hsize, ← written_size_at_end haccepts hend]
        exact hrecorded
      · rintro ⟨hend, hsize⟩ -
        refine ⟨_, rfl, (restored_offset_eq hamount).2 hend, rfl, ?_⟩
        rw [hsize, ← written_size_at_end haccepts hend]
        exact hrecorded

/-! ## A write of one byte to a new file -/

def newlyOpened : Vfs :=
  (vfsOpenFlags 1000 (fun _ => none) (formattedFiles 1000 blankDisk).vfs [0x61]
    (NPK_O_CREAT ||| NPK_O_RDWR) true).2.2

/-- The first write call of an operation fails before it writes a sector. -/
def firstWriteFails : WriteAnswers := fun k => if k = 0 then some 0 else none

theorem newlyOpened_file :
    ∃ file, newlyOpened.fileAt 0 = some file ∧ file.inode = 0 ∧ file.size = 0 ∧
      file.offset = 0 ∧ file.writable = true := by
  have hfile : (newlyOpened.fileAt 0).map
      (fun file => (file.inode, file.size, file.offset, file.writable)) =
        some (0, 0, 0, true) := by decide +kernel
  obtain ⟨file, hopen, hfields⟩ := Option.map_eq_some_iff.1 hfile
  simp only [Prod.mk.injEq] at hfields
  exact ⟨file, hopen, hfields.1, hfields.2.1, hfields.2.2.1, hfields.2.2.2⟩

theorem failed_write_unnoticed_iff_newlyOpened :
    ∃ file, newlyOpened.fileAt 0 = some file ∧ descriptorSlot 64 = some 0 ∧
      (((vfsWrite 1000 firstWriteFails newlyOpened 64 [0x78]).1 < 0 →
          Unnoticed 0 file newlyOpened (vfsWrite 1000 firstWriteFails newlyOpened 64 [0x78]).2.2) ↔
        file.accepts [0x78] = false ∨
          DiskTakes 1000 firstWriteFails newlyOpened.persistent file ∨
          (file.offset = file.size ∧
            (newlyOpened.persistent.inodes file.inode).size =
              file.offset + file.amount [0x78])) := by
  obtain ⟨file, hopen, -⟩ := newlyOpened_file
  exact ⟨file, hopen, rfl,
    failed_write_unnoticed_iff 1000 firstWriteFails newlyOpened [0x78] rfl hopen⟩

theorem failed_write_noticed :
    (vfsWrite 1000 firstWriteFails newlyOpened 64 [0x78]).1 = -5 ∧
      ∃ file, newlyOpened.fileAt 0 = some file ∧
        ¬Unnoticed 0 file newlyOpened
          (vfsWrite 1000 firstWriteFails newlyOpened 64 [0x78]).2.2 := by
  obtain ⟨file, hopen, hinode, -⟩ := newlyOpened_file
  refine ⟨by decide +kernel, file, hopen, ?_⟩
  rintro ⟨kept, -, -, -, hsize⟩
  rw [hinode] at hsize
  exact absurd hsize (by decide +kernel)

end NPKernel.Failing
