import NPKernel.FailedWrites
import NPKernel.GuardedRuns
import NPKernel.PersistentUpdates

/-!
# Persistent files stay apart

In memory the inode table is kept well formed by every call, whatever the disk
does: a file is created at the end of the used sectors under a name that no file
has, and a failed creation is undone exactly.  What a boot loads is such a table
as long as its checksum tells whether a slot is complete.
-/

namespace NPKernel.Failing

open GuardedRuns BitwiseCrc

/-! ## Events with the answers of the disk -/

/-- The writes of an event that reach the disk, and the state after it. -/
def perform (sectors : ℕ) (answers : WriteAnswers) (s : Vfs) :
    FileEvent → List SectorWrite × Vfs
  | .openFile name flags loaded => (vfsOpenFlags sectors answers s name flags loaded).2
  | .openOther => ([], s.openOther.2)
  | .read fd count => ([], (s.vfsRead fd count).2.2)
  | .write fd bytes => (vfsWrite sectors answers s fd bytes).2
  | .seek fd offset whence => ([], (s.vfsSeek fd offset whence).2)
  | .retain fd => ([], (s.vfsRetain fd).2)
  | .fsync fd => (vfsSyncFd sectors answers s fd).2
  | .sync => (vfsSyncAll sectors answers s).2
  | .close fd => (vfsClose sectors answers s fd).2
  | .reboot => reboot sectors answers s

/-- Whether a slot is complete: its inode sectors and its superblock were all
written by one commit, in this order. -/
abbrev Completeness := SlotName → Bool

def noteWrite (complete : Completeness) : SectorWrite → Completeness
  | .inode name _ _ => Function.update complete name false
  | .super name _ => Function.update complete name true
  | .txn _ => complete
  | .data _ _ => complete

def noteWrites (complete : Completeness) (writes : List SectorWrite) : Completeness :=
  writes.foldl noteWrite complete

structure Mount where
  vfs : Vfs
  complete : Completeness

def Mount.step (sectors : ℕ) (s : Mount) (event : FileEvent × WriteAnswers) : Option Mount :=
  if event.1.possible then
    let result := perform sectors event.2 s.vfs event.1
    some ⟨result.2, noteWrites s.complete result.1⟩
  else none

def formattedMount (sectors : ℕ) (disk : Disk) : Mount where
  vfs := (formattedFiles sectors disk).vfs
  complete := fun _ => true

/-- When the machine boots, no torn slot passes the checks of a slot. -/
def TornSlotsRefused (sectors : ℕ) (s : Mount) (event : FileEvent × WriteAnswers) : Prop :=
  event.1 = .reboot → ∀ name,
    persistentSuperSlotValid sectors (s.vfs.disk.slot name) = true → s.complete name = true

/-! ## Isolated tables -/

structure Isolated (sectors : ℕ) (super : Superblock) (inodes : InodeTable) : Prop where
  names : ∀ i j, (inodes i).used = true → (inodes j).used = true →
    (inodes i).name = (inodes j).name → i = j
  disjoint : ∀ i j, (inodes i).used = true → (inodes j).used = true → i ≠ j →
    (inodes i).startSector + PERSIST_DATA_SECTORS ≤ (inodes j).startSector ∨
      (inodes j).startSector + PERSIST_DATA_SECTORS ≤ (inodes i).startSector
  lower : ∀ i, (inodes i).used = true → PERSIST_DATA_START ≤ (inodes i).startSector
  upper : ∀ i, (inodes i).used = true →
    (inodes i).startSector + PERSIST_DATA_SECTORS ≤ super.nextSector
  room : super.nextSector ≤ sectors
  count : super.inodeCount = usedCount inodes

structure Kept (sectors : ℕ) (super : Superblock) (inodes : InodeTable) : Prop
    extends Isolated sectors super inodes where
  start : PERSIST_DATA_START ≤ super.nextSector
  blank : ∀ i, (inodes i).used = false → inodes i = Inode.zero

def Kept.InMemory (sectors : ℕ) (fs : PersistentState) : Prop :=
  Kept sectors fs.super fs.inodes

section Tables

variable {sectors : ℕ} {fs : PersistentState}

theorem usedCount_eq_card (inodes : InodeTable) :
    usedCount inodes = (Finset.univ.filter fun i => (inodes i).used = true).card := by
  rw [usedCount, List.countP_eq_length_filter, ← List.toFinset_card_of_nodup
    ((List.nodup_finRange 64).filter _)]
  congr 1
  ext i
  simp

theorem usedCount_update {inodes : InodeTable} {i : Fin 64} (hfree : (inodes i).used = false)
    {inode : Inode} (hused : inode.used = true) :
    usedCount (Function.update inodes i inode) = usedCount inodes + 1 := by
  rw [usedCount_eq_card, usedCount_eq_card]
  have hinsert : (Finset.univ.filter fun j => (Function.update inodes i inode j).used = true) =
      insert i (Finset.univ.filter fun j => (inodes j).used = true) := by
    ext j
    by_cases hj : j = i
    · subst hj
      simp [hused]
    · simp [hj]
  rw [hinsert, Finset.card_insert_of_notMem (by simp [hfree])]

theorem usedCount_resize (inodes : InodeTable) (i : Fin 64) (size : ℕ) :
    usedCount (Function.update inodes i { inodes i with size := size }) = usedCount inodes := by
  unfold usedCount
  congr 1
  funext j
  by_cases hj : j = i
  · subst hj
    simp
  · simp [hj]

theorem Kept.InMemory.created (h : Kept.InMemory sectors fs) {name : List Byte} {i : Fin 64}
    (hnew : persistentFind fs.inodes name = none) (hslot : createSlot sectors fs name = some i) :
    Kept.InMemory sectors (withNewInode fs i name) := by
  obtain ⟨hfree, hroom⟩ := createSlot_spec hslot
  have habsent := persistentFind_none hnew
  have hcases : ∀ j, ((withNewInode fs i name).inodes j).used = true →
      (j = i ∧ (withNewInode fs i name).inodes j = newInode fs.super.nextSector name) ∨
        (fs.inodes j).used = true ∧ (withNewInode fs i name).inodes j = fs.inodes j := by
    intro j hj
    by_cases hji : j = i
    · subst hji
      exact .inl ⟨rfl, Function.update_self ..⟩
    · have hkept : (withNewInode fs i name).inodes j = fs.inodes j := Function.update_of_ne hji ..
      exact .inr ⟨hkept ▸ hj, hkept⟩
  refine { names := ?_, disjoint := ?_, lower := ?_, upper := ?_, room := hroom, count := ?_,
           start := le_trans h.start (Nat.le_add_right _ _), blank := ?_ }
  · intro j k hj hk hjk
    rcases hcases j hj with ⟨hji, hj⟩ | ⟨husedj, hj⟩ <;>
      rcases hcases k hk with ⟨hki, hk⟩ | ⟨husedk, hk⟩ <;> rw [hj, hk] at hjk
    · exact hji.trans hki.symm
    · exact absurd hjk.symm (habsent k husedk)
    · exact absurd hjk (habsent j husedj)
    · exact h.names j k husedj husedk hjk
  · intro j k hj hk hne
    rcases hcases j hj with ⟨hji, hj⟩ | ⟨husedj, hj⟩ <;>
      rcases hcases k hk with ⟨hki, hk⟩ | ⟨husedk, hk⟩ <;> rw [hj, hk]
    · exact absurd (hji.trans hki.symm) hne
    · exact .inr (h.upper k husedk)
    · exact .inl (h.upper j husedj)
    · exact h.disjoint j k husedj husedk hne
  · intro j hj
    rcases hcases j hj with ⟨-, hj⟩ | ⟨hused, hj⟩ <;> rw [hj]
    · exact h.start
    · exact h.lower j hused
  · intro j hj
    rcases hcases j hj with ⟨-, hj⟩ | ⟨hused, hj⟩ <;> rw [hj]
    · exact le_refl _
    · exact le_trans (h.upper j hused) (Nat.le_add_right _ _)
  · simp only [withNewInode]
    rw [usedCount_update hfree rfl, h.count]
  · intro j hj
    simp only [withNewInode] at hj ⊢
    by_cases hji : j = i
    · subst hji
      rw [Function.update_self] at hj
      exact absurd hj (by simp [newInode])
    · rw [Function.update_of_ne hji] at hj ⊢
      exact h.blank j hj

theorem Kept.InMemory.undone (h : Kept.InMemory sectors fs) {name : List Byte} {i : Fin 64}
    (hslot : createSlot sectors fs name = some i) :
    withoutInode (withNewInode fs i name) i = fs := by
  have hblank := h.blank i (createSlot_spec hslot).1
  unfold withoutInode withNewInode
  simp only [Function.update_idem, ← hblank, Function.update_eq_self, Nat.add_sub_cancel]

theorem Kept.InMemory.resized (h : Kept.InMemory sectors fs) {i : Fin 64}
    (hused : (fs.inodes i).used = true) (size : ℕ) :
    Kept.InMemory sectors (withSize fs i size) := by
  have hsame : ∀ j, ((withSize fs i size).inodes j).used = (fs.inodes j).used ∧
      ((withSize fs i size).inodes j).name = (fs.inodes j).name ∧
      ((withSize fs i size).inodes j).startSector = (fs.inodes j).startSector := by
    intro j
    simp only [withSize]
    by_cases hji : j = i
    · subst hji
      simp
    · simp [hji]
  refine { names := ?_, disjoint := ?_, lower := ?_, upper := ?_, room := h.room, count := ?_,
           start := h.start, blank := ?_ }
  · intro j k
    rw [(hsame j).1, (hsame k).1, (hsame j).2.1, (hsame k).2.1]
    exact h.names j k
  · intro j k
    rw [(hsame j).1, (hsame k).1, (hsame j).2.2, (hsame k).2.2]
    exact h.disjoint j k
  · intro j
    rw [(hsame j).1, (hsame j).2.2]
    exact h.lower j
  · intro j
    rw [(hsame j).1, (hsame j).2.2]
    exact h.upper j
  · exact h.count.trans (usedCount_resize fs.inodes i size).symm
  · intro j hj
    rw [(hsame j).1] at hj
    have hji : j ≠ i := by
      rintro rfl
      rw [hused] at hj
      contradiction
    simp only [withSize, Function.update_of_ne hji]
    exact h.blank j hj

theorem Kept.InMemory.committed (h : Kept.InMemory sectors fs) :
    Kept sectors (nextSuper fs) fs.inodes where
  names := h.names
  disjoint := h.disjoint
  lower := h.lower
  upper := h.upper
  room := h.room
  count := rfl
  start := h.start
  blank := h.blank

end Tables

/-! ## What the writes of a call keep -/

def SlotsKept (sectors : ℕ) (slot : SlotName → Slot) (complete : Completeness) : Prop :=
  ∀ name, complete name = true → Kept sectors (slot name).super (slot name).inodes

def KeepsSlots (sectors : ℕ) (writes : List SectorWrite) : Prop :=
  ∀ (disk : Disk) complete, SlotsKept sectors disk.slot complete →
    SlotsKept sectors (disk.writeAll writes).slot (noteWrites complete writes)

def DataWithin (region : ℕ → Prop) (writes : List SectorWrite) : Prop :=
  ∀ sector bytes, SectorWrite.data sector bytes ∈ writes → region sector

section Writes

variable {sectors : ℕ} {first second : List SectorWrite} {region : ℕ → Prop}

theorem noteWrites_append (complete : Completeness) (first second : List SectorWrite) :
    noteWrites complete (first ++ second) = noteWrites (noteWrites complete first) second :=
  List.foldl_append

theorem KeepsSlots.nil : KeepsSlots sectors [] := fun _ _ h => h

theorem KeepsSlots.append (hfirst : KeepsSlots sectors first)
    (hsecond : KeepsSlots sectors second) : KeepsSlots sectors (first ++ second) := by
  intro disk complete h
  rw [Disk.writeAll_append, noteWrites_append]
  exact hsecond _ _ (hfirst disk complete h)

/-- Writes to the marker, to data sectors and to inode sectors of a slot make no
slot complete. -/
theorem KeepsSlots.of_writes (h : ∀ w ∈ first, ∀ name super, w ≠ SectorWrite.super name super) :
    KeepsSlots sectors first := by
  induction first with
  | nil => exact KeepsSlots.nil
  | cons w writes ih =>
    have hrest := ih fun w' hw' => h w' (List.mem_cons_of_mem _ hw')
    suffices hfirst : KeepsSlots sectors [w] from hfirst.append hrest
    intro disk complete hkept
    cases w with
    | txn | data => exact hkept
    | super name super => exact absurd rfl (h _ List.mem_cons_self name super)
    | inode name sector inodes =>
      intro other hother
      by_cases hname : other = name
      · subst hname
        simp [noteWrites, noteWrite] at hother
      · simp only [noteWrites, List.foldl_cons, List.foldl_nil, noteWrite,
          Function.update_of_ne hname] at hother
        simpa [Disk.write, hname] using hkept other hother

theorem DataWithin.append (hfirst : DataWithin region first) (hsecond : DataWithin region second) :
    DataWithin region (first ++ second) := by
  intro sector bytes hmem
  rcases List.mem_append.1 hmem with hmem | hmem
  · exact hfirst sector bytes hmem
  · exact hsecond sector bytes hmem

theorem DataWithin.mono {wider : ℕ → Prop} (h : DataWithin region first)
    (himp : ∀ sector, region sector → wider sector) : DataWithin wider first :=
  fun sector bytes hmem => himp sector (h sector bytes hmem)

theorem DataWithin.data_eq (h : DataWithin region first) (disk : Disk) {sector : ℕ}
    (houtside : ¬region sector) : (disk.writeAll first).data sector = disk.data sector := by
  refine Disk.writeAll_induct (P := fun d => d.data sector = disk.data sector) ?_ rfl
  intro w hw d hd
  cases w with
  | txn | inode | super => exact hd
  | data other bytes =>
    have hne : sector ≠ other := by
      rintro rfl
      exact houtside (h sector bytes hw)
    simpa [Disk.write, hne] using hd

end Writes

/-! ## Commits -/

section Commits

variable {sectors : ℕ} {answers : WriteAnswers} {fs : PersistentState} {super : Superblock}
  {inodes : InodeTable}

theorem ataWriteSectors_writes {answer : Option ℕ} {lba : ℕ} {writes : List SectorWrite} :
    ∃ k, (ataWriteSectors sectors answer lba writes).2 = writes.take k ∧
      ((ataWriteSectors sectors answer lba writes).1 = true → writes.length ≤ k) := by
  unfold ataWriteSectors
  split
  · cases answer with
    | none => exact ⟨writes.length, (List.take_length).symm, fun _ => le_refl _⟩
    | some written => exact ⟨written, rfl, fun h => absurd h (by simp)⟩
  · exact ⟨0, rfl, fun h => absurd h (by simp)⟩

theorem writeCalls_writes {calls : List (ℕ × List SectorWrite)} :
    ∃ k, (writeCalls sectors answers calls).2 = (calls.flatMap Prod.snd).take k := by
  induction calls generalizing answers with
  | nil => exact ⟨0, rfl⟩
  | cons call calls ih =>
    obtain ⟨lba, writes⟩ := call
    obtain ⟨k, hwrites, hall⟩ := @ataWriteSectors_writes sectors (answers 0) lba writes
    simp only [writeCalls, List.flatMap_cons]
    cases hcall : ataWriteSectors sectors (answers 0) lba writes with
    | mk ok written =>
      rw [hcall] at hwrites hall
      dsimp only at hwrites hall
      cases ok with
      | true =>
        obtain ⟨j, hrest⟩ := @ih (answers.after 1)
        refine ⟨writes.length + j, ?_⟩
        dsimp only
        rw [hwrites, hrest, List.take_of_length_le (hall rfl), List.take_append,
          List.take_of_length_le (Nat.le_add_right _ _), Nat.add_sub_cancel_left]
      | false =>
        refine ⟨min k writes.length, ?_⟩
        dsimp only
        rw [hwrites, List.take_append_of_le_length (min_le_right _ _), List.take_eq_take_min]

theorem commitCalls_writes :
    (commitCalls super inodes).flatMap Prod.snd = commitWrites super inodes := by
  simp [commitCalls, commitWrites]

theorem KeepsSlots.takeAppend {first second : List SectorWrite}
    (hfirst : ∀ k, KeepsSlots sectors (first.take k))
    (hsecond : ∀ k, KeepsSlots sectors (second.take k)) (k : ℕ) :
    KeepsSlots sectors ((first ++ second).take k) := by
  rw [List.take_append]
  exact (hfirst k).append (hsecond _)

theorem KeepsSlots.takeTxn (txn : Transaction) (k : ℕ) :
    KeepsSlots sectors ([SectorWrite.txn txn].take k) := by
  apply KeepsSlots.of_writes
  intro w hw name super
  rw [List.mem_singleton.1 (List.mem_of_mem_take hw)]
  simp

theorem KeepsSlots.takeData (start : ℕ) (bytes : ℕ → Byte) (k : ℕ) :
    KeepsSlots sectors ((dataWrites start bytes).take k) := by
  apply KeepsSlots.of_writes
  intro w hw name super
  obtain ⟨j, -, rfl⟩ := List.mem_map.1 (List.mem_of_mem_take hw)
  simp

theorem KeepsSlots.takeInodes (name : SlotName) (inodes : InodeTable) (k : ℕ) :
    KeepsSlots sectors ((inodeWrites name inodes).take k) := by
  apply KeepsSlots.of_writes
  intro w hw other super
  obtain ⟨j, -, rfl⟩ := List.mem_map.1 (List.mem_of_mem_take hw)
  simp

theorem KeepsSlots.takeSlot (h : Kept sectors super inodes) (name : SlotName) (k : ℕ) :
    KeepsSlots sectors ((inodeWrites name inodes ++ [SectorWrite.super name super]).take k) := by
  rcases Nat.lt_or_ge 8 k with hk | hk
  · have hlength : (inodeWrites name inodes ++ [SectorWrite.super name super]).length ≤ k := by
      rw [List.length_append, inodeWrites_length]
      exact hk
    rw [List.take_of_length_le hlength]
    intro disk complete hkept other hother
    have hslot : (disk.writeAll (inodeWrites name inodes ++ [.super name super])).slot =
        Function.update disk.slot name ⟨super, inodes⟩ := by
      rw [Disk.writeAll_append, Disk.writeAll_cons, Disk.writeAll_nil, slot_write_super,
        slot_writeAll_inodeWrites]
      simp
    rw [hslot]
    by_cases hname : other = name
    · subst hname
      rw [Function.update_self]
      exact h
    · rw [Function.update_of_ne hname]
      have hinodes := @KeepsSlots.takeInodes sectors name inodes 8 disk complete hkept other
      rw [List.take_of_length_le (le_of_eq (inodeWrites_length name inodes)),
        slot_writeAll_inodeWrites, Function.update_of_ne hname] at hinodes
      apply hinodes
      rw [noteWrites_append] at hother
      simpa [noteWrites, noteWrite, hname] using hother
  · rw [List.take_append_of_le_length (by rwa [inodeWrites_length])]
    exact KeepsSlots.takeInodes name inodes k

theorem KeepsSlots.takeCommit (h : Kept sectors super inodes) (k : ℕ) :
    KeepsSlots sectors ((commitWrites super inodes).take k) := by
  have hwrites : commitWrites super inodes =
      [.txn (prepareTxn super)] ++ ((inodeWrites .backup inodes ++ [.super .backup super]) ++
        ((inodeWrites .primary inodes ++ [.super .primary super]) ++ [.txn clearTxn])) := by
    simp [commitWrites]
  rw [hwrites]
  exact .takeAppend (.takeTxn _) (.takeAppend (.takeSlot h _)
    (.takeAppend (.takeSlot h _) (.takeTxn _))) k

theorem DataWithin.commit (region : ℕ → Prop) (k : ℕ) :
    DataWithin region ((commitWrites super inodes).take k) := by
  intro sector bytes hmem
  have hwrite := List.mem_of_mem_take hmem
  simp [commitWrites, inodeWrites] at hwrite

theorem DataWithin.extent (start : ℕ) (bytes : ℕ → Byte) (k : ℕ) :
    DataWithin (fun sector => start ≤ sector ∧ sector < start + PERSIST_DATA_SECTORS)
      ((dataWrites start bytes).take k) := by
  intro sector content hmem
  obtain ⟨j, hj, heq⟩ := List.mem_map.1 (List.mem_of_mem_take hmem)
  obtain ⟨rfl, -⟩ := SectorWrite.data.inj heq
  rw [List.mem_range] at hj
  omega

/-- What a commit, or a write-back with its commit, leaves in memory: the table, and the
fields of the superblock that say where the free sectors begin and how many inodes are used. -/
structure SameTable (fs after : PersistentState) : Prop where
  inodes : after.inodes = fs.inodes
  nextSector : after.super.nextSector = fs.super.nextSector
  count : after.super.inodeCount = fs.super.inodeCount
  ready : after.ready = fs.ready

theorem SameTable.refl (fs : PersistentState) : SameTable fs fs := ⟨rfl, rfl, rfl, rfl⟩

theorem SameTable.kept {after : PersistentState} (h : SameTable fs after)
    (hkept : Kept.InMemory sectors fs) : Kept.InMemory sectors after := by
  unfold Kept.InMemory
  rw [h.inodes]
  exact
    { names := hkept.names
      disjoint := hkept.disjoint
      lower := hkept.lower
      upper := fun i hi => h.nextSector ▸ hkept.upper i hi
      room := h.nextSector ▸ hkept.room
      count := h.count.trans hkept.count
      start := h.nextSector ▸ hkept.start
      blank := hkept.blank }

theorem persistentWriteMetadata_sameTable (hkept : Kept.InMemory sectors fs) :
    SameTable fs (persistentWriteMetadata sectors answers fs).2.2 := by
  unfold persistentWriteMetadata
  split
  · split
    · exact ⟨rfl, rfl, hkept.count.symm, rfl⟩
    · exact .refl fs
  · exact .refl fs

theorem persistentWriteMetadata_writes :
    ∃ k, (persistentWriteMetadata sectors answers fs).2.1 =
      (commitWrites (nextSuper fs) fs.inodes).take k := by
  unfold persistentWriteMetadata
  split
  · obtain ⟨k, hwrites⟩ := @writeCalls_writes sectors answers (commitCalls (nextSuper fs) fs.inodes)
    rw [commitCalls_writes] at hwrites
    refine ⟨k, ?_⟩
    split <;> next heq => rw [heq] at hwrites; exact hwrites
  · exact ⟨0, rfl⟩

theorem writeExtent_spec (hkept : Kept.InMemory sectors fs) (start : ℕ) (bytes : ℕ → Byte) :
    SameTable fs (writeExtent sectors answers start bytes fs).2.2 ∧
      KeepsSlots sectors (writeExtent sectors answers start bytes fs).2.1 ∧
      DataWithin (fun sector => start ≤ sector ∧ sector < start + PERSIST_DATA_SECTORS)
        (writeExtent sectors answers start bytes fs).2.1 := by
  obtain ⟨k, hwritten, -⟩ := @ataWriteSectors_writes sectors (answers 0) start
    (dataWrites start bytes)
  unfold writeExtent
  split
  next written hcall =>
    rw [hcall] at hwritten
    dsimp only at hwritten
    obtain ⟨j, hcommit⟩ := @persistentWriteMetadata_writes sectors (answers.after 1) fs
    dsimp only
    rw [hwritten, hcommit]
    exact ⟨persistentWriteMetadata_sameTable hkept,
      (KeepsSlots.takeData _ _ k).append (KeepsSlots.takeCommit hkept.committed j),
      (DataWithin.extent _ _ k).append (DataWithin.commit _ j)⟩
  next written hcall =>
    rw [hcall] at hwritten
    dsimp only at hwritten ⊢
    rw [hwritten]
    exact ⟨.refl fs, KeepsSlots.takeData _ _ k, DataWithin.extent _ _ k⟩

theorem persistentWriteMetadata_failed
    (h : (persistentWriteMetadata sectors answers fs).1 = false) :
    (persistentWriteMetadata sectors answers fs).2.2 = fs := by
  unfold persistentWriteMetadata at h ⊢
  split
  next hallowed =>
    simp only [hallowed, if_true] at h
    split
    next heq => simp [heq] at h
    · rfl
  · rfl

theorem writeExtent_failed {start : ℕ} {bytes : ℕ → Byte}
    (h : (writeExtent sectors answers start bytes fs).1 = false) :
    (writeExtent sectors answers start bytes fs).2.2 = fs := by
  unfold writeExtent at h ⊢
  split
  next heq =>
    simp only [heq] at h
    exact persistentWriteMetadata_failed h
  · rfl

theorem persistentCreate_failed (hkept : Kept.InMemory sectors fs) {name : List Byte}
    (h : (persistentCreate sectors answers fs name).1 = none) :
    SameTable fs (persistentCreate sectors answers fs name).2.2 := by
  unfold persistentCreate at h ⊢
  cases hslot : createSlot sectors fs name with
  | none => exact .refl fs
  | some i =>
    simp only [hslot] at h ⊢
    split
    next heq => simp [heq] at h
    next writes created heq =>
    have hstate := @writeExtent_failed sectors answers (withNewInode fs i name)
      fs.super.nextSector persistentZeroData
    rw [heq] at hstate
    dsimp only at hstate ⊢
    rw [hstate rfl, hkept.undone hslot]
    exact persistentWriteMetadata_sameTable hkept

theorem persistentCreate_spec (hkept : Kept.InMemory sectors fs) {name : List Byte}
    (hnew : persistentFind fs.inodes name = none) :
    Kept.InMemory sectors (persistentCreate sectors answers fs name).2.2 ∧
      KeepsSlots sectors (persistentCreate sectors answers fs name).2.1 ∧
      DataWithin (fun sector => fs.super.nextSector ≤ sector)
        (persistentCreate sectors answers fs name).2.1 ∧
      (∀ j, (fs.inodes j).used = true →
        (persistentCreate sectors answers fs name).2.2.inodes j = fs.inodes j) ∧
      ∀ i, (persistentCreate sectors answers fs name).1 = some i →
        (fs.inodes i).used = false ∧
          ((persistentCreate sectors answers fs name).2.2.inodes i).used = true := by
  have hfailed := @persistentCreate_failed sectors answers fs hkept name
  unfold persistentCreate at hfailed ⊢
  cases hslot : createSlot sectors fs name with
  | none => exact ⟨hkept, .nil, fun _ _ h => absurd h (by simp), fun _ _ => rfl, by simp⟩
  | some i =>
    obtain ⟨hfree, -⟩ := createSlot_spec hslot
    obtain ⟨hsame, hkeeps, hdata⟩ := @writeExtent_spec sectors answers (withNewInode fs i name)
      (hkept.created hnew hslot) fs.super.nextSector persistentZeroData
    have hbehind := hdata.mono fun sector h => h.1
    simp only [hslot] at hfailed ⊢
    cases hextent : writeExtent sectors answers fs.super.nextSector persistentZeroData
        (withNewInode fs i name) with
    | mk ok result =>
      obtain ⟨writes, after⟩ := result
      rw [hextent] at hsame hkeeps hbehind
      simp only [hextent] at hfailed ⊢
      cases ok with
      | true =>
        refine ⟨hsame.kept (hkept.created hnew hslot), hkeeps, hbehind, ?_, ?_⟩
        · intro j hj
          have hji : j ≠ i := by
            rintro rfl
            rw [hfree] at hj
            contradiction
          dsimp only at hsame ⊢
          rw [hsame.inodes]
          simp [withNewInode, hji]
        · intro j hj
          cases hj
          dsimp only at hsame ⊢
          rw [hsame.inodes]
          exact ⟨hfree, by simp [withNewInode, newInode]⟩
      | false =>
        obtain ⟨k, hundo⟩ := @persistentWriteMetadata_writes sectors (answers.after 7)
          (withoutInode after i)
        have hstate := @writeExtent_failed sectors answers (withNewInode fs i name)
          fs.super.nextSector persistentZeroData
        rw [hextent] at hstate
        have hafter : withoutInode after i = fs := by
          rw [show after = withNewInode fs i name from hstate rfl, hkept.undone hslot]
        have hrestored := hfailed rfl
        dsimp only at hrestored ⊢
        refine ⟨hrestored.kept hkept, ?_, ?_, fun j _ => by rw [hrestored.inodes], by simp⟩
        · rw [hundo, hafter]
          exact hkeeps.append (.takeCommit hkept.committed k)
        · rw [hundo]
          exact hbehind.append (.commit _ k)

end Commits

/-! ## What one call does -/

def InExtent (fs : PersistentState) (i : Fin 64) (sector : ℕ) : Prop :=
  (fs.inodes i).startSector ≤ sector ∧ sector < (fs.inodes i).startSector + PERSIST_DATA_SECTORS

structure Effect (sectors : ℕ) (touched : Fin 64 → Prop) (s : Vfs) (writes : List SectorWrite)
    (next : Vfs) : Prop where
  disk : next.disk = s.disk.writeAll writes
  kept : Kept.InMemory sectors next.persistent
  slots : KeepsSlots sectors writes
  extents : ∀ i, (s.persistent.inodes i).used = true →
    (next.persistent.inodes i).used = true ∧
      (next.persistent.inodes i).startSector = (s.persistent.inodes i).startSector
  data : DataWithin (fun sector => PERSIST_DATA_START ≤ sector ∧
    ∀ i, (s.persistent.inodes i).used = true → ¬touched i → ¬InExtent s.persistent i sector) writes

section Effects

variable {sectors : ℕ} {answers : WriteAnswers} {touched : Fin 64 → Prop} {s mid next : Vfs}
  {writes more : List SectorWrite}

theorem Effect.rest (hkept : Kept.InMemory sectors s.persistent) (hdisk : next.disk = s.disk)
    (hpersistent : next.persistent = s.persistent) : Effect sectors touched s [] next where
  disk := hdisk
  kept := hpersistent ▸ hkept
  slots := .nil
  extents := fun i hi => by rw [hpersistent]; exact ⟨hi, rfl⟩
  data := fun _ _ h => absurd h (by simp)

theorem Effect.mono {wider : Fin 64 → Prop} (h : Effect sectors touched s writes next)
    (himp : ∀ i, (s.persistent.inodes i).used = true → touched i → wider i) :
    Effect sectors wider s writes next :=
  { h with
    data := h.data.mono fun _ hsector =>
      ⟨hsector.1, fun i hi hwider => hsector.2 i hi fun htouched => hwider (himp i hi htouched)⟩ }

theorem Effect.trans (hfirst : Effect sectors touched s writes mid)
    (hsecond : Effect sectors touched mid more next) :
    Effect sectors touched s (writes ++ more) next where
  disk := by rw [hsecond.disk, hfirst.disk, Disk.writeAll_append]
  kept := hsecond.kept
  slots := hfirst.slots.append hsecond.slots
  extents := fun i hi => by
    obtain ⟨hused, hstart⟩ := hfirst.extents i hi
    obtain ⟨hused', hstart'⟩ := hsecond.extents i hused
    exact ⟨hused', hstart'.trans hstart⟩
  data := by
    refine hfirst.data.append (hsecond.data.mono fun sector hsector => ⟨hsector.1, ?_⟩)
    intro i hi htouched
    obtain ⟨hused, hstart⟩ := hfirst.extents i hi
    have houtside := hsector.2 i hused htouched
    rwa [InExtent, hstart] at houtside

theorem Effect.withDescriptors (h : Effect sectors touched s writes mid)
    (hdisk : next.disk = mid.disk) (hpersistent : next.persistent = mid.persistent) :
    Effect sectors touched s writes next where
  disk := hdisk.trans h.disk
  kept := hpersistent ▸ h.kept
  slots := h.slots
  extents := fun i hi => by rw [hpersistent]; exact h.extents i hi
  data := h.data

theorem syncFile_effect (hkept : Kept.InMemory sectors s.persistent) {file : OpenFile}
    (hused : (s.persistent.inodes file.inode).used = true) :
    Effect sectors (fun i => i = file.inode) s (syncFile sectors answers s file).2.1
      (syncFile sectors answers s file).2.2 := by
  obtain ⟨hsame, hkeeps, hdata⟩ := @writeExtent_spec sectors answers
    (withSize s.persistent file.inode (file.size % 2 ^ 32)) (hkept.resized hused _)
    (s.persistent.inodes file.inode).startSector file.data
  refine ⟨rfl, hsame.kept (hkept.resized hused _), hkeeps, ?_, hdata.mono ?_⟩
  · intro i hi
    change ((writeExtent sectors answers _ file.data _).2.2.inodes i).used = true ∧
      ((writeExtent sectors answers _ file.data _).2.2.inodes i).startSector = _
    rw [hsame.inodes, withSize]
    by_cases hne : i = file.inode
    · subst hne
      simpa using hi
    · simpa [hne] using hi
  · intro sector hsector
    have hlower := hkept.lower file.inode hused
    refine ⟨by omega, fun i hi hne hin => ?_⟩
    have hapart := hkept.disjoint i file.inode hi hused hne
    unfold InExtent at hin
    omega

theorem findOrCreate_effect (hkept : Kept.InMemory sectors s.persistent) (name : List Byte)
    (flags : ℕ) :
    Effect sectors (fun _ => False) s (findOrCreate sectors answers s name flags).2.1
        (findOrCreate sectors answers s name flags).2.2 ∧
      ∀ i, (findOrCreate sectors answers s name flags).1 = some i →
        ((findOrCreate sectors answers s name flags).2.2.persistent.inodes i).used = true ∧
          ((s.persistent.inodes i).used = true → (s.persistent.inodes i).name = name) := by
  unfold findOrCreate
  cases hfind : persistentFind s.persistent.inodes name with
  | some i =>
    refine ⟨.rest hkept rfl rfl, fun j hj => ?_⟩
    cases hj
    exact ⟨(persistentFind_spec hfind).1, fun _ => (persistentFind_spec hfind).2⟩
  | none =>
    dsimp only
    split
    · obtain ⟨hafter, hkeeps, hdata, hsame, hcreated⟩ :=
        @persistentCreate_spec sectors answers s.persistent hkept name hfind
      refine ⟨⟨rfl, hafter, hkeeps, ?_, hdata.mono ?_⟩, fun i hi => ?_⟩
      · intro i hi
        change ((persistentCreate sectors answers s.persistent name).2.2.inodes i).used = true ∧
          ((persistentCreate sectors answers s.persistent name).2.2.inodes i).startSector = _
        rw [hsame i hi]
        exact ⟨hi, rfl⟩
      · intro sector hsector
        refine ⟨le_trans hkept.start hsector, fun i hi _ hin => ?_⟩
        have hupper := hkept.upper i hi
        unfold InExtent at hin
        omega
      · obtain ⟨hfree, hused⟩ := hcreated i hi
        refine ⟨hused, fun h => ?_⟩
        rw [hfree] at h
        contradiction
    · exact ⟨.rest hkept rfl rfl, by simp⟩

def OpenedUsed (s : Vfs) : Prop :=
  ∀ slot file, s.fileAt slot = some file → (s.persistent.inodes file.inode).used = true

theorem OpenedUsed.afterEffect (hopened : OpenedUsed s) (h : Effect sectors touched s writes next)
    (hfiles : next.descriptors = s.descriptors) : OpenedUsed next := by
  intro slot file hfile
  have hbefore : s.fileAt slot = some file := by
    rwa [Vfs.fileAt, hfiles] at hfile
  exact (h.extents file.inode (hopened slot file hbefore)).1

theorem OpenedUsed.setDescriptor (hopened : OpenedUsed s) (slot : Fin 64) {d : Option Descriptor}
    (hd : ∀ file, d.bind Descriptor.file = some file →
      (s.persistent.inodes file.inode).used = true) :
    OpenedUsed (s.setDescriptor slot d) := by
  intro other file hfile
  rw [fileAt_setDescriptor] at hfile
  split at hfile
  · exact hd file hfile
  · exact hopened other file hfile

theorem OpenedUsed.setFile (hopened : OpenedUsed s) (slot : Fin 64) {file : OpenFile}
    (hused : (s.persistent.inodes file.inode).used = true) : OpenedUsed (s.setFile slot file) := by
  intro other after hafter
  unfold Vfs.setFile Vfs.fileAt at hafter
  by_cases hother : other = slot
  · subst hother
    simp only [Function.update_self, Option.bind_map, Option.bind_eq_some_iff] at hafter
    obtain ⟨d, -, hd⟩ := hafter
    cases hd
    exact hused
  · simp only [Function.update_of_ne hother] at hafter
    exact hopened other after hafter

/-- A call as part of a run: it may write to some files and leaves descriptors of
used inodes. -/
structure Performs (sectors : ℕ) (touched : Fin 64 → Prop) (s : Vfs)
    (result : List SectorWrite × Vfs) : Prop where
  effect : Effect sectors touched s result.1 result.2
  opened : OpenedUsed result.2

/-- The table in memory is kept, and the open files are in it. -/
structure Steady (sectors : ℕ) (s : Vfs) : Prop where
  kept : Kept.InMemory sectors s.persistent
  opened : OpenedUsed s

theorem Performs.steady {result : List SectorWrite × Vfs}
    (h : Performs sectors touched s result) : Steady sectors result.2 :=
  ⟨h.effect.kept, h.opened⟩

variable (h : Steady sectors s)

include h

theorem Steady.nothing : Performs sectors touched s ([], s) :=
  ⟨.rest h.kept rfl rfl, h.opened⟩

theorem Steady.setDescriptor (slot : Fin 64) {d : Option Descriptor}
    (hd : ∀ file, d.bind Descriptor.file = some file →
      (s.persistent.inodes file.inode).used = true) :
    Performs sectors touched s ([], s.setDescriptor slot d) :=
  ⟨.rest h.kept rfl rfl, h.opened.setDescriptor slot hd⟩

theorem Steady.setFile {slot : Fin 64} {file : OpenFile} (hfile : s.fileAt slot = some file)
    {after : OpenFile} (hinode : after.inode = file.inode) :
    Performs sectors touched s ([], s.setFile slot after) :=
  ⟨.rest h.kept rfl rfl, h.opened.setFile slot (hinode ▸ h.opened slot file hfile)⟩

theorem syncFile_performs {file : OpenFile} (hused : (s.persistent.inodes file.inode).used = true) :
    Performs sectors (fun i => i = file.inode) s (syncFile sectors answers s file).2 :=
  ⟨syncFile_effect h.kept hused, h.opened.afterEffect (syncFile_effect h.kept hused) rfl⟩

theorem openInode_performs (slot : Fin 64) {i : Fin 64}
    (hused : (s.persistent.inodes i).used = true) (flags : ℕ) (loaded : Bool) :
    Performs sectors (fun j => j = i) s (openInode sectors answers s slot i flags loaded).2 := by
  unfold openInode
  split
  · exact h.nothing
  split
  · have hsync : Performs sectors (fun j => j = i) s
        (syncFile sectors answers s (s.loadFile i flags).truncated).2 :=
      @syncFile_performs sectors answers s h (s.loadFile i flags).truncated hused
    dsimp only
    split
    next writes after hsynced =>
      rw [hsynced] at hsync
      refine ⟨hsync.effect.withDescriptors rfl rfl, hsync.opened.setDescriptor slot ?_⟩
      rintro file hfile
      cases hfile
      exact (hsync.effect.extents i hused).1
    next writes after hsynced =>
      rw [hsynced] at hsync
      exact hsync
  · refine h.setDescriptor slot ?_
    rintro file hfile
    cases hfile
    exact hused

theorem vfsOpenFlags_performs (name : List Byte) (flags : ℕ) (loaded : Bool) :
    Performs sectors (fun i => (s.persistent.inodes i).name = name) s
      (vfsOpenFlags sectors answers s name flags loaded).2 := by
  unfold vfsOpenFlags
  split
  · exact h.nothing
  obtain ⟨hfind, hfound⟩ := @findOrCreate_effect sectors answers s h.kept name flags
  have hrest := h.opened.afterEffect hfind (by
    unfold findOrCreate
    split <;> [rfl; (split <;> rfl)])
  have hany : ∀ touched, Effect sectors touched s (findOrCreate sectors answers s name flags).2.1
      (findOrCreate sectors answers s name flags).2.2 := fun _ => hfind.mono fun _ _ h => h.elim
  split
  next writes after heq =>
    rw [heq] at hany hrest
    exact ⟨hany _, hrest⟩
  next i writes after heq =>
  rw [heq] at hany hrest hfound hfind
  obtain ⟨hused, hname⟩ := hfound i rfl
  split
  · exact ⟨hany _, hrest⟩
  split
  · exact ⟨hany _, hrest⟩
  next slot _ =>
  have hopen := @openInode_performs sectors (answers.after 13) after ⟨hfind.kept, hrest⟩ slot
    i hused flags loaded
  refine ⟨?_, hopen.opened⟩
  -- the file has this name, or it was not there before
  refine ((hany fun j => j = i).trans hopen.effect).mono ?_
  rintro j hj rfl
  exact hname hj

def FileOf (s : Vfs) (fd : ℕ) (i : Fin 64) : Prop :=
  ∃ slot file, descriptorSlot fd = some slot ∧ s.fileAt slot = some file ∧ file.inode = i

theorem vfsWrite_performs (fd : ℕ) (bytes : List Byte) :
    Performs sectors (FileOf s fd) s (vfsWrite sectors answers s fd bytes).2 := by
  unfold vfsWrite
  cases hslot : descriptorSlot fd with
  | none => exact h.nothing
  | some slot =>
    dsimp only
    cases hfile : s.fileAt slot with
    | none => exact h.nothing
    | some file =>
      have hused := h.opened slot file hfile
      have hsync : Performs sectors (fun i => i = file.inode) s
          (syncFile sectors answers s (file.written bytes)).2 :=
        @syncFile_performs sectors answers s h (file.written bytes) hused
      have htouched : ∀ i, i = file.inode → FileOf s fd i :=
        fun i hi => ⟨slot, file, hslot, hfile, hi.symm⟩
      dsimp only
      split
      · split <;>
          next writes after hsynced =>
          rw [hsynced] at hsync
          have hinode := (hsync.effect.extents file.inode hused).1
          exact ⟨(hsync.effect.mono fun i _ => htouched i).withDescriptors rfl rfl,
            hsync.opened.setFile slot hinode⟩
      · exact h.nothing

theorem syncSlot_performs (slot : Fin 64) :
    Performs sectors (fun i => ∃ file, s.fileAt slot = some file ∧ file.inode = i) s
      (syncSlot sectors answers s slot).2 := by
  unfold syncSlot
  cases hfile : s.fileAt slot with
  | none => exact h.nothing
  | some file =>
    have hsync := @syncFile_performs sectors answers s h file (h.opened slot file hfile)
    exact ⟨hsync.effect.mono fun i _ hi => ⟨file, rfl, hi.symm⟩, hsync.opened⟩

theorem syncSlot_touches {fd : ℕ} {slot : Fin 64} (hslot : descriptorSlot fd = some slot) :
    Performs sectors (FileOf s fd) s (syncSlot sectors answers s slot).2 := by
  have hsync := @syncSlot_performs sectors answers s h slot
  refine ⟨hsync.effect.mono fun i _ h => ?_, hsync.opened⟩
  obtain ⟨file, hfile, hinode⟩ := h
  exact ⟨slot, file, hslot, hfile, hinode⟩

theorem vfsSyncFd_performs (fd : ℕ) :
    Performs sectors (FileOf s fd) s (vfsSyncFd sectors answers s fd).2 := by
  fun_cases vfsSyncFd sectors answers s fd with
  | case3 slot hslot => exact syncSlot_touches h hslot
  | _ => exact h.nothing

theorem vfsClose_performs (fd : ℕ) :
    Performs sectors (FileOf s fd) s (vfsClose sectors answers s fd).2 := by
  fun_cases vfsClose sectors answers s fd with
  | case5 _ slot _ d hd =>
    refine h.setDescriptor slot fun file hfile => ?_
    exact h.opened slot file (by rw [Vfs.fileAt, hd]; exact hfile)
  | case6 _ slot hslot =>
    have hsync := @syncSlot_touches sectors answers s h fd slot hslot
    exact ⟨hsync.effect.withDescriptors rfl rfl, hsync.opened.setDescriptor slot (by simp)⟩
  | _ => exact h.nothing

omit h in
theorem syncSlot_descriptors (slot : Fin 64) :
    (syncSlot sectors answers s slot).2.2.descriptors = s.descriptors := by
  unfold syncSlot
  split <;> rfl

omit h in
theorem syncSlots_performs (slots : List (Fin 64)) (h : Steady sectors s) :
    Performs sectors (fun i => ∃ slot file, s.fileAt slot = some file ∧ file.inode = i) s
      (syncSlots sectors answers s slots).2 := by
  induction slots generalizing s answers with
  | nil => exact h.nothing
  | cons slot slots ih =>
    have hfirst := @syncSlot_performs sectors answers s h slot
    have hrest := @ih (answers.after 7) (syncSlot sectors answers s slot).2.2
      hfirst.steady
    have hfiles : ∀ other, (syncSlot sectors answers s slot).2.2.fileAt other =
        s.fileAt other := fun other => by rw [Vfs.fileAt, syncSlot_descriptors, Vfs.fileAt]
    simp only [hfiles] at hrest
    refine ⟨(hfirst.effect.mono ?_).trans hrest.effect, hrest.opened⟩
    rintro i - ⟨file, hfile, hinode⟩
    exact ⟨slot, file, hfile, hinode⟩

end Effects

/-! ## Whole runs -/

def touches (s : Vfs) : FileEvent → Fin 64 → Prop
  | .openFile name _ _, i => (s.persistent.inodes i).name = name
  | .write fd _, i => FileOf s fd i
  | .fsync fd, i => FileOf s fd i
  | .close fd, i => FileOf s fd i
  | .sync, i => ∃ slot file, s.fileAt slot = some file ∧ file.inode = i
  | _, _ => False

section Runs

variable {sectors : ℕ} {answers : WriteAnswers} {s : Vfs}

theorem perform_performs (h : Steady sectors s) {event : FileEvent} (hevent : event ≠ .reboot) :
    Performs sectors (touches s event) s (perform sectors answers s event) := by
  cases event with
  | openFile name flags loaded => exact vfsOpenFlags_performs h name flags loaded
  | openOther =>
    simp only [perform, Vfs.openOther]
    split
    · exact h.nothing
    · exact h.setDescriptor _ (by simp)
  | read fd count =>
    simp only [perform]
    fun_cases s.vfsRead fd count with
    | case5 _ _ _ hfile => exact h.setFile hfile rfl
    | _ => exact h.nothing
  | write fd bytes => exact vfsWrite_performs h fd bytes
  | seek fd offset whence =>
    simp only [perform]
    fun_cases s.vfsSeek fd offset whence with
    | case5 _ _ _ hfile => exact h.setFile hfile rfl
    | _ => exact h.nothing
  | retain fd =>
    simp only [perform, Vfs.vfsRetain]
    split
    · exact h.nothing
    split
    · exact h.nothing
    split
    · exact h.nothing
    next d hd =>
    split
    · exact h.nothing
    · refine h.setDescriptor _ fun file hfile => ?_
      exact h.opened _ file (by rw [Vfs.fileAt, hd]; exact hfile)
  | fsync fd => exact vfsSyncFd_performs h fd
  | sync => exact syncSlots_performs (List.finRange 64) h
  | close fd => exact vfsClose_performs h fd
  | reboot => exact absurd rfl hevent

theorem kept_formatted (hsectors : PERSIST_DATA_START + PERSIST_DATA_SECTORS ≤ sectors) :
    Kept.InMemory sectors formattedState := by
  have hunused : ∀ i, ¬(formattedState.inodes i).used = true := by
    intro i
    simp [formattedState, Inode.zero]
  have hroom : formattedState.super.nextSector ≤ sectors :=
    le_trans (Nat.le_add_right PERSIST_DATA_START PERSIST_DATA_SECTORS) hsectors
  exact
    { names := fun i _ hi => absurd hi (hunused i)
      disjoint := fun i _ hi => absurd hi (hunused i)
      lower := fun i hi => absurd hi (hunused i)
      upper := fun i hi => absurd hi (hunused i)
      room := hroom
      count := by decide
      start := le_refl _
      blank := fun _ _ => rfl }

theorem slotValid_of_recovered {disk : Disk} {name : SlotName}
    (h : recoveredSlot sectors disk = some name) :
    persistentSuperSlotValid sectors (disk.slot name) = true := by
  unfold recoveredSlot at h
  dsimp only at h
  cases hprimary : persistentSuperSlotValid sectors (disk.slot .primary) <;>
    cases hbackup : persistentSuperSlotValid sectors (disk.slot .backup) <;>
    cases name <;> simp_all

theorem persistentInit_spec (hsectors : PERSIST_DATA_START + PERSIST_DATA_SECTORS ≤ sectors)
    {disk : Disk} {complete : Completeness} (hslots : SlotsKept sectors disk.slot complete)
    (hrefused : ∀ name, persistentSuperSlotValid sectors (disk.slot name) = true →
      complete name = true) :
    Kept.InMemory sectors (persistentInit sectors answers disk).2 ∧
      KeepsSlots sectors (persistentInit sectors answers disk).1 := by
  unfold persistentInit
  cases hrecovered : recoveredSlot sectors disk with
  | none =>
    have hformatted := kept_formatted hsectors
    obtain ⟨k, hwrites⟩ := @persistentWriteMetadata_writes sectors answers formattedState
    dsimp only
    rw [hwrites]
    exact ⟨(persistentWriteMetadata_sameTable hformatted).kept hformatted,
      .takeCommit hformatted.committed k⟩
  | some name =>
    have hkept := hslots name (hrefused name (slotValid_of_recovered hrecovered))
    refine ⟨hkept, ?_⟩
    dsimp only
    split
    · obtain ⟨k, hwrites, -⟩ := @ataWriteSectors_writes sectors (answers 0)
        PERSIST_TXN_SECTOR [.txn clearTxn]
      rw [hwrites]
      exact .takeTxn _ k
    · exact .nil

theorem persistentInit_data (answers : WriteAnswers) (disk : Disk) :
    DataWithin (fun _ => False) (persistentInit sectors answers disk).1 := by
  unfold persistentInit
  split
  · obtain ⟨k, hwrites⟩ := @persistentWriteMetadata_writes sectors answers formattedState
    rw [hwrites]
    exact .commit _ k
  · intro sector bytes hmem
    dsimp only at hmem
    split at hmem
    · obtain ⟨k, hwrites, -⟩ := @ataWriteSectors_writes sectors (answers 0)
        PERSIST_TXN_SECTOR [.txn clearTxn]
      rw [hwrites] at hmem
      exact absurd (List.mem_singleton.1 (List.mem_of_mem_take hmem)) (by simp)
    · exact absurd hmem (by simp)

structure Mount.Sound (sectors : ℕ) (s : Mount) : Prop where
  kept : Kept.InMemory sectors s.vfs.persistent
  opened : OpenedUsed s.vfs
  slots : SlotsKept sectors s.vfs.disk.slot s.complete

theorem Mount.Sound.afterStep (hsectors : PERSIST_DATA_START + PERSIST_DATA_SECTORS ≤ sectors)
    (s : Mount) (event : FileEvent × WriteAnswers) (next : Mount) (h : s.Sound sectors)
    (hguard : TornSlotsRefused sectors s event) (hstep : s.step sectors event = some next) :
    next.Sound sectors := by
  unfold Mount.step at hstep
  split at hstep
  · cases hstep
    by_cases hreboot : event.1 = .reboot
    · obtain ⟨hkept, hkeeps⟩ := @persistentInit_spec sectors event.2 hsectors s.vfs.disk
        s.complete h.slots (hguard hreboot)
      rw [hreboot]
      refine ⟨hkept, ?_, hkeeps _ _ h.slots⟩
      intro slot file hfile
      simp [perform, reboot, Vfs.fileAt] at hfile
    · have hperforms := @perform_performs sectors event.2 s.vfs ⟨h.kept, h.opened⟩ event.1 hreboot
      refine ⟨hperforms.effect.kept, hperforms.opened, ?_⟩
      dsimp only
      rw [hperforms.effect.disk]
      exact hperforms.effect.slots _ _ h.slots
  · simp at hstep

theorem formattedMount_sound (hsectors : PERSIST_DATA_START + PERSIST_DATA_SECTORS ≤ sectors)
    (disk : Disk) : (formattedMount sectors disk).Sound sectors := by
  have hformatted := kept_formatted hsectors
  rw [formattedMount, formattedFiles, persistentFormat_eq hsectors]
  refine ⟨hformatted.committed, ?_, ?_⟩
  · intro slot file hfile
    simp [Vfs.fileAt] at hfile
  · intro name _
    rw [slot_writeAll_commitWrites]
    exact hformatted.committed

/-- The tables in memory are isolated, a creation that fails leaves them as they
are, and no event writes to a metadata sector as data or to a sector of a file
that it has nothing to do with. -/
structure FilesApart (sectors : ℕ) (s : Vfs) : Prop where
  isolated : Isolated sectors s.persistent.super s.persistent.inodes
  failedCreate : ∀ answers name, (persistentCreate sectors answers s.persistent name).1 = none →
    SameTable s.persistent (persistentCreate sectors answers s.persistent name).2.2
  metadata : ∀ answers event sector, sector < PERSIST_DATA_START →
    (perform sectors answers s event).2.disk.data sector = s.disk.data sector
  others : ∀ answers event i sector, (s.persistent.inodes i).used = true →
    ¬touches s event i → InExtent s.persistent i sector →
      (perform sectors answers s event).2.disk.data sector = s.disk.data sector

theorem Mount.Sound.filesApart {s : Mount} (h : s.Sound sectors) : FilesApart sectors s.vfs := by
  have hdata : ∀ answers event sector, ¬(PERSIST_DATA_START ≤ sector ∧
      ∀ i, (s.vfs.persistent.inodes i).used = true → ¬touches s.vfs event i →
        ¬InExtent s.vfs.persistent i sector) →
      (perform sectors answers s.vfs event).2.disk.data sector = s.vfs.disk.data sector := by
    intro answers event sector hsector
    by_cases hreboot : event = .reboot
    · subst hreboot
      exact (persistentInit_data answers s.vfs.disk).data_eq s.vfs.disk id
    · have heffect :=
        (@perform_performs sectors answers s.vfs ⟨h.kept, h.opened⟩ event hreboot).effect
      rw [heffect.disk]
      exact heffect.data.data_eq s.vfs.disk hsector
  refine ⟨h.kept.toIsolated, fun answers name => persistentCreate_failed h.kept, ?_, ?_⟩
  · intro answers event sector hsector
    exact hdata answers event sector fun hin => Nat.not_le_of_lt hsector hin.1
  · intro answers event i sector hused htouches hin
    exact hdata answers event sector fun hout => hout.2 i hused htouches hin

end Runs

/-- From a formatted disk, in every run with any failures of disk writes in which
no torn slot passes the checks of a boot, the files stay apart. -/
theorem persistent_files_apart {sectors : ℕ}
    (hsectors : PERSIST_DATA_START + PERSIST_DATA_SECTORS ≤ sectors) (disk : Disk)
    (events : List (FileEvent × WriteAnswers))
    (hguard : Guarded (Mount.step sectors) (TornSlotsRefused sectors)
      (formattedMount sectors disk) events) {last : Mount}
    (hrun : run (Mount.step sectors) (formattedMount sectors disk) events = some last) :
    FilesApart sectors last.vfs :=
  (invariant_run (Mount.Sound.afterStep hsectors) (formattedMount_sound hsectors disk) hguard
    hrun).filesApart

end NPKernel.Failing
