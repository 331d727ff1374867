import NPKernel.AreaChanges
import NPKernel.ElfImages

/-!
# The pages and areas of a staged image

Loading an image and writing its first stack work on pages only.  The areas of a
staged process are those of its segments, and one heap area in front of them.
-/

namespace NPKernel.Vm

open IntervalLists Relation

/-! ## Pages -/

section pages

variable {sources : Sources} {mem : Memory}

theorem loadPages_changes (image : Image) (ph : Elf64ProgramHeader) (bias start limit count va : ℕ)
    (records : List ℕ) (mem : Memory) :
    PageChanges sources (fun _ _ => True) mem
      (loadPages image ph bias start limit count va records mem).2.2 := by
  induction count generalizing va records mem with
  | zero => exact .refl
  | succ count ih =>
    rw [loadPages]
    split
    next halloc => exact .single (.exhausted _ halloc)
    next frame frames halloc =>
    dsimp only
    split
    · exact .single (.discarded frame frames halloc)
    split
    next next hmap =>
      rw [← frames.store_self frame] at hmap
      exact .single (.refused va frame frames _ _ next halloc hmap)
    next next hmap =>
    rw [← frames.store_self frame] at hmap
    have hcreated : ∀ contents, PageChange sources (fun _ _ => True) mem
        (next.setFrames (next.frames.store frame contents)) := fun contents =>
      .created va frame frames _ contents _ next halloc hmap trivial rfl rfl
    split
    · exact .single (hcreated _)
    next contents _ => exact .head (hcreated contents) (ih _ _ _)

theorem loadSegments_changes (image : Image) (bias limit : ℕ) (programs : List Elf64ProgramHeader)
    (records : List ℕ) (mem : Memory) :
    PageChanges sources (fun _ _ => True) mem
      (loadSegments image bias limit programs records mem).2.2 := by
  induction programs generalizing records mem with
  | nil => exact .refl
  | cons ph rest ih =>
    rw [loadSegments]
    split
    · exact ih records mem
    split
    · exact .refl
    next range _ =>
    have hpages : PageChanges sources (fun _ _ => True) mem
        (loadPages image ph bias range.start limit
          (pagesBetween range.pageStart range.pageEnd) range.pageStart records mem).2.2 :=
      loadPages_changes ..
    split
    next heq =>
      rw [heq] at hpages
      split
      · exact hpages
      · exact hpages.trans (ih _ _)

theorem unmapRecords_changes (records : List ℕ) (mem : Memory) :
    PageChanges sources (fun _ _ => True) mem (records.foldl unmapPage mem) := by
  induction records generalizing mem with
  | nil => exact .refl
  | cons page rest ih => exact .head (.unmapped page) (ih _)

theorem elf64LoadInAddressSpace_changes (kmalloc : Bool) (image : Image) (bias : ℕ) (mem : Memory) :
    PageChanges sources (fun _ _ => True) mem
      (elf64LoadInAddressSpace kmalloc image bias mem).2 := by
  fun_cases elf64LoadInAddressSpace kmalloc image bias mem with
  | case7 _ _ _ _ programs _ _ pages _ _ _ _ _ _ _ heq =>
    have hload := @loadSegments_changes sources image bias pages programs [] mem
    rw [heq] at hload
    exact hload.trans (unmapRecords_changes _ _)
  | case8 _ _ _ _ programs _ _ pages _ _ _ _ _ _ _ heq =>
    have hload := @loadSegments_changes sources image bias pages programs [] mem
    rwa [heq] at hload
  | _ => exact .refl

theorem performSteps_changes (answers : Answers) (steps : List StackStep) (mem : Memory) :
    PageChanges sources mem.process.Allows mem
      (performSteps answers sources.objects steps mem).2 := by
  induction steps generalizing mem with
  | nil => exact .refl
  | cons step rest ih =>
    cases step with
    | none => exact .refl
    | some write =>
      have hwrite : PageChanges sources mem.process.Allows mem
          (userStackWrite answers sources.objects mem write.1 write.2).2 :=
        kernelWrite_changes mem answers false write.1 write.2
      rw [performSteps]
      split
      next heq => rwa [heq] at hwrite
      next heq =>
        rw [heq] at hwrite
        exact hwrite.andThen (ih _)

theorem buildInitialUserStack_layout {answers : Answers} {objects : Objects}
    {argv envp : List (List (BitVec 8))} {main : ElfLoadResult} {interpreter : Option ElfLoadResult}
    {top : ℕ} {mem next : Memory} {result : Option ℕ}
    (h : buildInitialUserStack answers objects argv envp main interpreter top mem =
      (result, next)) : next.layout = mem.layout := by
  have hchanges : PageChanges ⟨objects, fun _ => False⟩ mem.process.Allows mem
      (performSteps answers objects (initialStack argv envp main interpreter top).1 mem).2 :=
    performSteps_changes answers _ mem
  unfold buildInitialUserStack at h
  dsimp only at h
  split at h <;>
    next hsteps =>
      rw [hsteps] at hchanges
      rw [← (Prod.mk.inj h).2]
      exact hchanges.layout

end pages

/-! ## Areas -/

section areas

variable {mem : Memory}

def Vma.OfSegment (vma : Vma) : Prop :=
  vma.flags = NPK_MAP_PRIVATE ||| NPK_MAP_ANONYMOUS ∧ vma.backingHandle = none

/-- Areas of segments are added, and nothing else changes. -/
def SegmentsAdded (mem next : Memory) : Prop :=
  (∃ vmas, next = mem.setVmas vmas) ∧
    AreaChanges Vma.OfSegment (fun _ _ _ => False) mem.layout next.layout

theorem vmReserveRange_added {kmalloc : Bool} {address length : ℕ} {protection : Word} {result : ℤ}
    {next : Memory} (h : vmReserveRange kmalloc mem address length protection
      (NPK_MAP_PRIVATE ||| NPK_MAP_ANONYMOUS) = (result, next)) : SegmentsAdded mem next := by
  have hchanges : AreaChanges Vma.OfSegment (fun _ _ _ => False) mem.layout _ :=
    vmReserveRange_changes kmalloc address length protection _ fun _ => ⟨rfl, rfl⟩
  rw [h] at hchanges
  refine ⟨?_, hchanges⟩
  rcases vmReserveRange_cases kmalloc mem address length protection
    (NPK_MAP_PRIVATE ||| NPK_MAP_ANONYMOUS) with ⟨-, heq⟩ | ⟨size, -, -, -, heq⟩ <;>
  · rw [h] at heq
    cases heq
    exact ⟨_, rfl⟩

theorem registerSegments_added (kmalloc : ℕ → Bool) (bias : ℕ)
    (programs : List Elf64ProgramHeader) (requests : ℕ) (mem : Memory) :
    SegmentsAdded mem (registerSegments kmalloc bias programs requests mem).2 := by
  fun_induction registerSegments kmalloc bias programs requests mem with
  | case2 _ _ _ _ _ ih => exact ih
  | case6 _ _ _ _ _ _ _ _ _ _ _ _ hreserve => exact vmReserveRange_added hreserve
  | case7 _ _ _ _ _ _ _ _ _ _ _ _ hreserve _ ih =>
    obtain ⟨⟨vmas, rfl⟩, hreserved⟩ := vmReserveRange_added hreserve
    obtain ⟨⟨vmas', hrest⟩, hchanges⟩ := ih
    exact ⟨⟨vmas', hrest⟩, hreserved.trans hchanges⟩
  | _ => exact ⟨⟨_, rfl⟩, .refl⟩

theorem registerExecVmas_added {kmalloc : ℕ → Bool} {image : Image} {bias : ℕ} {done : Bool}
    {next : Memory} (h : registerExecVmas kmalloc image bias mem = (done, next)) :
    SegmentsAdded mem next := by
  have hadded := registerSegments_added kmalloc bias (programHeaders image (elfHeader image)) 0 mem
  rw [registerExecVmas] at h
  rwa [h] at hadded

theorem stageImage_changes (answers : Answers) (requests : ℕ) (image : Image) (bias : ℕ)
    (mem : Memory) :
    AreaChanges Vma.OfSegment (fun _ _ _ => False) mem.layout
      (stageImage answers requests image bias mem).2.layout := by
  have hload : PageChanges ⟨fun _ => none, fun _ => False⟩ (fun _ _ => True) mem
      (elf64LoadInAddressSpace (answers.kmalloc requests) image bias mem).2 :=
    elf64LoadInAddressSpace_changes ..
  rw [← hload.layout]
  fun_cases stageImage answers requests image bias mem with
  | case1 _ _ heq => rw [heq]
  | case2 _ _ heq _ hregister | case3 _ _ heq _ hregister =>
    rw [heq]
    exact (registerExecVmas_added hregister).2

structure Layout.OfSegments (layout : Layout) : Prop where
  ok : layout.Ok
  segments : ∀ vma ∈ layout.vmas, vma.OfSegment

variable {layout : Layout} {answers : Answers} {objects : Objects} {exec : ExecArguments}
  {next : Memory}

theorem Layout.OfSegments.afterChanges {next : Layout} (h : layout.OfSegments)
    (hchanges : AreaChanges Vma.OfSegment (fun _ _ _ => False) layout next) : next.OfSegments where
  ok := h.ok.afterChanges hchanges
  segments := AreaChanges.all (fun _ => id)
    (fun _ _ hpart hvma => ⟨hpart.flags.trans hvma.1, hpart.handle.trans hvma.2⟩)
    h.segments hchanges

def heapArea (start : ℕ) : Vma :=
  Vma.plain start (heapLimit start - start) (NPK_PROT_READ ||| NPK_PROT_WRITE)
    (NPK_MAP_PRIVATE ||| NPK_MAP_ANONYMOUS ||| NPK_MAP_HEAP)

/-- The layout of a staged process: the areas of its segments, a heap area in front of
them, and the break at the start of the heap. -/
def Staged (layout : Layout) : Prop :=
  ∃ (segments : Layout) (start : ℕ), segments.OfSegments ∧ (heapArea start).Ok ∧
    (∀ other ∈ segments.vmas, (heapArea start).Apart other) ∧
    layout = { vmas := heapArea start :: segments.vmas, brkStart := start, brkEnd := start
               mmapCursor := VM_USER_MMAP_BASE }

theorem Staged.ok (h : Staged layout) : layout.Ok := by
  obtain ⟨segments, start, hsegments, hheap, hfree, rfl⟩ := h
  refine ⟨?_, List.pairwise_cons.2 ⟨hfree, hsegments.ok.apart⟩,
    (by decide : VM_USER_MMAP_BASE % NPK_PAGE_SIZE = 0)⟩
  intro vma hvma
  rcases List.mem_cons.1 hvma with rfl | hvma
  · exact hheap
  · exact hsegments.ok.each vma hvma

theorem heapLimit_size {start size : ℕ} (haligned : start % NPK_PAGE_SIZE = 0)
    (h : pageAlignUp (heapLimit start - start) = some size) : size = heapLimit start - start := by
  obtain ⟨hmod, hle, hlt⟩ := pageAlignUp_eq_some h
  have hwhole : (heapLimit start - start) % NPK_PAGE_SIZE = 0 := by
    have hpage : NPK_PAGE_SIZE = 4096 := rfl
    have hmax : NPK_USER_MAX = 0x800000000000 := rfl
    unfold heapLimit
    rw [hpage] at haligned ⊢
    rw [hmax]
    split <;> omega
  simp only [NPK_PAGE_SIZE] at hmod hlt hwhole
  omega

def Memory.withHeap (mem : Memory) (start : ℕ) : Memory :=
  { mem with
    process :=
      { mem.process with
        vmas := heapArea start :: mem.process.vmas, brkStart := start, brkEnd := start } }

theorem vmReserveHeap_cases (kmalloc : Bool) (mem : Memory) {start : ℕ}
    (haligned : start % NPK_PAGE_SIZE = 0) :
    (vmReserveHeap kmalloc mem start (heapLimit start)).1 < 0 ∨
      (heapArea start).Ok ∧ (∀ other ∈ mem.process.vmas, (heapArea start).Apart other) ∧
        vmReserveHeap kmalloc mem start (heapLimit start) = (0, mem.withHeap start) := by
  unfold vmReserveHeap
  split
  · exact Or.inl (by decide : VM_EINVAL < 0)
  rcases vmReserveRange_cases kmalloc mem start (heapLimit start - start)
    (NPK_PROT_READ ||| NPK_PROT_WRITE)
    (NPK_MAP_PRIVATE ||| NPK_MAP_ANONYMOUS ||| NPK_MAP_HEAP) with
    ⟨hneg, -⟩ | ⟨size, hsize, hok, hfree, heq⟩
  · left
    dsimp only
    rw [if_pos hneg.ne]
    exact hneg
  · obtain rfl := heapLimit_size haligned hsize
    right
    rw [heq]
    exact ⟨hok, hfree, rfl⟩

variable {staged : StagedExec}

theorem stageHeapAndStack_eq_some {main : ElfLoadResult} {interpreter : Option ElfLoadResult}
    (h : stageHeapAndStack answers objects exec main interpreter mem = (some staged, next)) :
    staged.main = main ∧ staged.interpreter = interpreter ∧ ∃ start written,
      (heapArea start).Ok ∧ (∀ other ∈ mem.process.vmas, (heapArea start).Apart other) ∧
      buildInitialUserStack answers objects exec.argv exec.envp main interpreter NPK_USER_STACK_TOP
        { mem.withHeap start with process := (mem.withHeap start).process.withStack } =
          (some staged.stackPointer, written) ∧
      next = { written with process := written.process.withBreak start } := by
  revert h
  fun_cases stageHeapAndStack answers objects exec main interpreter mem with
  | case4 start hstart result reserved hreserve hresult sp written hbuild =>
    rintro ⟨⟩
    rcases vmReserveHeap_cases (answers.kmalloc 200) mem (pageAlignUp_eq_some hstart).1
      with hneg | ⟨hok, hfree, heq⟩
    · rw [hreserve] at hneg
      exact absurd hneg hresult
    · rw [hreserve] at heq
      cases heq
      exact ⟨rfl, rfl, start, written, hok, hfree, hbuild, rfl⟩
  | _ => exact nofun

theorem stageHeapAndStack_staged {main : ElfLoadResult} {interpreter : Option ElfLoadResult}
    (h : mem.layout.OfSegments)
    (hstage : stageHeapAndStack answers objects exec main interpreter mem = (some staged, next)) :
    Staged next.layout := by
  obtain ⟨-, -, start, written, hok, hfree, hbuild, rfl⟩ := stageHeapAndStack_eq_some hstage
  refine ⟨mem.layout, start, h, hok, hfree, ?_⟩
  change Layout.mk written.layout.vmas start start VM_USER_MMAP_BASE = _
  rw [buildInitialUserStack_layout hbuild]
  rfl

theorem stageAll_staged (h : mem.layout.OfSegments)
    (hstage : stageAll answers objects exec mem = (some staged, next)) : Staged next.layout := by
  have hmain := stageImage_changes answers 0 exec.image (defaultBias (elfHeader exec.image)) mem
  revert hstage
  fun_cases stageAll answers objects exec mem with
  | case2 main mem' heq =>
    rw [heq] at hmain
    exact stageHeapAndStack_staged (h.afterChanges hmain)
  | case4 main mem' heq interpreter _ loaded mem'' heq' =>
    have hinterpreter := stageImage_changes answers 100 interpreter NPK_USER_INTERP_BASE mem'
    rw [heq] at hmain
    rw [heq'] at hinterpreter
    exact stageHeapAndStack_staged ((h.afterChanges hmain).afterChanges hinterpreter)
  | _ => exact nofun

theorem emptyProcess_ofSegments (frames : Frames) (pid : ℕ) (tables : PageTree) :
    (Memory.layout { frames := frames, process := emptyProcess pid tables }).OfSegments :=
  ⟨⟨nofun, List.Pairwise.nil, rfl⟩, nofun⟩

variable {pid : ℕ} {frames frames' : Frames} {process : UserProcess}
  (h : stageExecImage answers objects exec pid frames = (some process, frames'))

include h

theorem stageExecImage_eq_some :
    ∃ tables created staged, vmmCreateAddressSpace frames = (some tables, created) ∧
      stageAll answers objects exec { frames := created, process := emptyProcess pid tables } =
        (some staged, { frames := frames', process := process }) := by
  revert h
  fun_cases stageExecImage answers objects exec pid frames with
  | case4 _ tables created hcreate staged mem hstage =>
    rintro ⟨⟩
    exact ⟨tables, created, staged, hcreate, hstage⟩
  | _ => exact nofun

theorem stageExecImage_staged : Staged process.layout := by
  obtain ⟨tables, created, staged, -, hstage⟩ := stageExecImage_eq_some h
  exact stageAll_staged (emptyProcess_ofSegments _ _ _) hstage

end areas

end NPKernel.Vm
