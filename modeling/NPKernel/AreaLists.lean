import NPKernel.AreaProtections
import NPKernel.MappedAreas
import NPKernel.StagedImages
import NPKernel.ProcessMemory

/-!
# The areas of every process

In every run of the machine the areas of a process are page aligned, non-empty,
apart from each other and inside the user range, and none is both writable and
executable.  Unmapping and protection calls change the protections of exactly their
range when they succeed, and none when they fail.
-/

namespace NPKernel.Vm

open IntervalLists Relation GuardedRuns

/-! ## Forks -/

variable {answers : ForkAnswers} {platform : Platform} {m : Machine} {slot : Fin 128}
  {process : UserProcess} {event : Event} {events : List Event}

theorem vmCloneMetadata_eq {vmas copies : List Vma} {requests : ℕ}
    (h : vmCloneMetadata answers vmas requests = some copies) :
    copies = vmas.filter fun vma => !hasBit vma.flags NPK_MAP_DEVICE := by
  induction vmas generalizing requests copies with
  | nil =>
    cases h
    rfl
  | cons vma rest ih =>
    rw [vmCloneMetadata] at h
    split at h
    next hdevice =>
      rw [List.filter_cons_of_neg (by simp [hdevice])]
      exact ih h
    next hdevice =>
      split at h
      · simp at h
      · obtain ⟨rest', hrest, rfl⟩ := Option.map_eq_some_iff.1 h
        rw [List.filter_cons_of_pos (by simpa using hdevice), ih hrest]

/-- The areas of a forked process: those of the parent without the device areas. -/
def Layout.forked (layout : Layout) : Layout :=
  { layout with vmas := layout.vmas.filter fun vma => !hasBit vma.flags NPK_MAP_DEVICE }

theorem Layout.Ok.forked {layout : Layout} (h : layout.Ok) : layout.forked.Ok where
  each := fun vma hvma => h.each vma (List.mem_of_mem_filter hvma)
  apart := h.apart.sublist List.filter_sublist
  cursor := h.cursor

def UserProcess.forked (parent : UserProcess) (pid : ℕ) (tables : PageTree) : UserProcess :=
  { parent with
    pid := pid, tables := tables
    vmas := parent.vmas.filter fun vma => !hasBit vma.flags NPK_MAP_DEVICE }

theorem forkChild_eq {pid : ℕ} {tables : PageTree}
    {parent child : UserProcess} (h : forkChild answers pid tables parent = some child) :
    child = parent.forked pid tables := by
  revert h
  fun_cases forkChild answers pid tables parent with
  | case4 _ _ hcopies =>
    rw [vmCloneMetadata_eq hcopies]
    exact fun h => (Option.some.inj h).symm
  | _ => exact nofun

/-! ## The processes after a step -/

def Machine.refusesDisplay (m : Machine) (pid : ℕ) (flags : Word) : Bool :=
  m.displayOwner ≠ pid || !hasBit flags NPK_MAP_SHARED || hasBit flags NPK_MAP_PRIVATE ||
    hasBit flags NPK_MAP_ANONYMOUS

theorem sysDisplayMap_cases {fb : Framebuffer} (answers : Answers) (requested : ℕ) (flags : Word)
    (hlive : m.slots slot = .live process) (hfb : platform.framebuffer = some fb) :
    (m.refusesDisplay process.pid flags = true ∧
        ∃ code, sysDisplayMap platform m slot answers requested flags = (.error code, m)) ∨
      (m.refusesDisplay process.pid flags = false ∧
        sysDisplayMap platform m slot answers requested flags =
          ((vmMapDevice answers { frames := m.frames, process := process } requested
              fb.physicalBase fb.mappingSize (NPK_PROT_READ ||| NPK_PROT_WRITE) flags).1,
            m.setMemory slot
              (vmMapDevice answers { frames := m.frames, process := process } requested
                fb.physicalBase fb.mappingSize (NPK_PROT_READ ||| NPK_PROT_WRITE) flags).2)) := by
  unfold sysDisplayMap Machine.refusesDisplay
  rw [hlive]
  dsimp only
  split
  next howner => exact Or.inl ⟨by simp [howner], _, rfl⟩
  next howner =>
  split
  next hflags => exact Or.inl ⟨by simpa [or_assoc, howner] using hflags, _, rfl⟩
  next hflags =>
    right
    rw [hfb]
    refine ⟨?_, rfl⟩
    simpa [howner] using hflags

def Event.call (platform : Platform) (m : Machine) : Event → Option (Fin 128 × (Memory → Memory))
  | .mmap slot answers arguments =>
    some (slot, fun mem => (sysMmap answers m.sharedObjects arguments mem).2)
  | .mprotect slot answers address length protection =>
    some (slot, fun mem => (sysMprotect answers mem address length protection).2)
  | .munmap slot answers address length =>
    some (slot, fun mem => (vmUnmap answers mem address length).2)
  | .brk slot requested => some (slot, fun mem => (sysBrk mem requested).2)
  | .fault slot answers address errorCode rsp =>
    some (slot, fun mem =>
      (vmHandlePageFault answers m.sharedObjects mem address errorCode rsp).2)
  | .store slot address byte => some (slot, fun mem => (userStore mem address byte).getD mem)
  | .copyin slot answers address length =>
    some (slot, fun mem => (vmmCopyin answers m.sharedObjects mem address length).2)
  | .copyout slot answers address bytes =>
    some (slot, fun mem => (vmmCopyout answers m.sharedObjects mem address bytes).2)
  | .ensure slot answers address =>
    some (slot, fun mem => (vmEnsureUserPage answers m.sharedObjects mem address true).2)
  | .displayMap slot answers requested flags =>
    platform.framebuffer.map fun fb => (slot, fun mem =>
      if m.refusesDisplay mem.process.pid flags then mem
      else
        (vmMapDevice answers mem requested fb.physicalBase fb.mappingSize
          (NPK_PROT_READ ||| NPK_PROT_WRITE) flags).2)
  | .displayRelease slot answers =>
    some (slot, fun mem =>
      if m.displayOwner ≠ mem.process.pid then mem else vmRevokeDeviceMappings answers mem)
  | _ => none

/-- Where a live process comes from: the step did not concern it, staged it, forked it,
or made a call on its memory. -/
inductive SlotStep (platform : Platform) (m : Machine) : Event → Fin 128 → UserProcess → Prop
  | kept (event : Event) (slot : Fin 128) (process : UserProcess)
      (hlive : m.slots slot = .live process)
      (hother : ∀ f, event.call platform m ≠ some (slot, f)) :
      SlotStep platform m event slot process
  | created (answers : Answers) (exec : ExecArguments) (slot : Fin 128) (process : UserProcess)
      (frames : Frames) (hslot : m.deadSlot = some slot)
      (hstage : stageExecImage answers m.sharedObjects exec m.nextPid m.frames =
        (some process, frames)) :
      SlotStep platform m (.create answers exec true) slot process
  | executed (answers : Answers) (exec : ExecArguments) (slot : Fin 128)
      (old process : UserProcess) (frames : Frames) (hlive : m.slots slot = .live old)
      (hstage : stageExecImage answers m.sharedObjects exec old.pid m.frames =
        (some process, frames)) :
      SlotStep platform m (.exec slot answers exec) slot process
  | parent (answers : ForkAnswers) (slot : Fin 128) (process : UserProcess)
      (hlive : m.slots slot = .live process) :
      SlotStep platform m (.fork slot answers) slot
        { process with tables := (vmmCloneUserSpace m.frames process.tables).2.1 }
  | child (answers : ForkAnswers) (slot child : Fin 128) (process : UserProcess)
      (tables : PageTree) (hlive : m.slots slot = .live process)
      (hfree : m.freeSlot = some child)
      (hclone : (vmmCloneUserSpace m.frames process.tables).1 = some tables) :
      SlotStep platform m (.fork slot answers) child (process.forked m.nextPid tables)
  | called (event : Event) (slot : Fin 128) (process : UserProcess) (f : Memory → Memory)
      (hlive : m.slots slot = .live process) (hcall : event.call platform m = some (slot, f)) :
      SlotStep platform m event slot (f { frames := m.frames, process := process }).process

section steps

variable {other : Fin 128} {f : Memory → Memory}

theorem update_slot {state : Slot} (h : Function.update m.slots slot state other = .live process) :
    (other = slot ∧ state = .live process) ∨ (other ≠ slot ∧ m.slots other = .live process) := by
  by_cases hother : other = slot
  · subst hother
    rw [Function.update_self] at h
    exact Or.inl ⟨rfl, h⟩
  · rw [Function.update_of_ne hother] at h
    exact Or.inr ⟨hother, h⟩

theorem SlotStep.of_call (hcall : event.call platform m = some (slot, f))
    (h : (m.call slot f).slots other = .live process) :
    SlotStep platform m event other process := by
  have hkept : other ≠ slot → m.slots other = .live process →
      SlotStep platform m event other process := by
    intro hne hlive
    refine .kept event other process hlive ?_
    intro f' hf'
    rw [hcall] at hf'
    exact hne (Prod.mk.inj (Option.some.inj hf')).1.symm
  unfold Machine.call at h
  split at h
  next before hlive =>
    rcases update_slot h with ⟨rfl, hstate⟩ | ⟨hne, hother⟩
    · rw [← Slot.live.inj hstate]
      exact .called event other before f hlive hcall
    · exact hkept hne hother
  next hdead =>
    refine hkept ?_ h
    rintro rfl
    exact hdead process h

theorem SlotStep.of_same (hcall : event.call platform m = none)
    (h : m.slots other = .live process) : SlotStep platform m event other process :=
  .kept event other process h fun f hf => by rw [hcall] at hf; cases hf

theorem SlotStep.of_refused (hcall : event.call platform m = some (slot, f))
    (hf : ∀ process, m.slots slot = .live process →
      f { frames := m.frames, process := process } = { frames := m.frames, process := process })
    (h : m.slots other = .live process) : SlotStep platform m event other process := by
  refine .of_call hcall ?_
  unfold Machine.call
  split
  next before hlive =>
    rw [hf before hlive]
    by_cases hother : other = slot
    · subst hother
      exact (Function.update_self ..).trans (hlive.symm.trans h)
    · exact (Function.update_of_ne hother ..).trans h
  · exact h

theorem SlotStep.of_displayMap (answers : Answers) (requested : ℕ) (flags : Word)
    (h : (sysDisplayMap platform m slot answers requested flags).2.slots other = .live process) :
    SlotStep platform m (.displayMap slot answers requested flags) other process := by
  cases hfb : platform.framebuffer with
  | none =>
    refine .of_same (by rw [Event.call, hfb]; rfl) ?_
    unfold sysDisplayMap at h
    split at h
    · simp only [hfb] at h
      split at h
      · exact h
      · split at h <;> exact h
    · exact h
  | some fb =>
    have hcall : (Event.displayMap slot answers requested flags).call platform m = some (slot,
        fun mem => if m.refusesDisplay mem.process.pid flags then mem
          else (vmMapDevice answers mem requested fb.physicalBase fb.mappingSize
            (NPK_PROT_READ ||| NPK_PROT_WRITE) flags).2) := by
      rw [Event.call, hfb]
      rfl
    by_cases hslot : ∃ before, m.slots slot = .live before
    · obtain ⟨before, hlive⟩ := hslot
      rcases sysDisplayMap_cases answers requested flags hlive hfb with
        ⟨hrefused, code, heq⟩ | ⟨hallowed, heq⟩
      · rw [heq] at h
        refine .of_refused hcall (fun process hprocess => ?_) h
        obtain rfl := Slot.live.inj (hlive.symm.trans hprocess)
        exact if_pos hrefused
      · rw [heq] at h
        refine .of_call hcall ?_
        unfold Machine.call
        rw [hlive]
        dsimp only
        rw [if_neg (by simp [hallowed])]
        exact h
    · have hdead : ∀ before, m.slots slot ≠ .live before :=
        fun before hlive => hslot ⟨before, hlive⟩
      refine .of_refused hcall (fun process hprocess => absurd hprocess (hdead process)) ?_
      unfold sysDisplayMap at h
      split at h
      next before hlive => exact absurd hlive (hdead before)
      · exact h

theorem SlotStep.of_displayRelease (answers : Answers)
    (h : (sysDisplayRelease m slot answers).slots other = .live process) :
    SlotStep platform m (.displayRelease slot answers) other process := by
  unfold sysDisplayRelease at h
  split at h
  next before hlive =>
    split at h
    next howner =>
      refine .of_refused rfl (fun process hprocess => ?_) h
      obtain rfl := Slot.live.inj (hlive.symm.trans hprocess)
      exact if_pos howner
    next howner =>
      refine .of_call rfl ?_
      unfold Machine.call at h ⊢
      rw [hlive] at h ⊢
      dsimp only at h ⊢
      rw [if_neg howner]
      exact h
  next hdead =>
    exact .of_refused rfl (fun process hprocess => absurd hprocess (hdead process)) h

theorem SlotStep.of_fork (answers : ForkAnswers)
    (h : (processFork m slot answers).slots other = .live process) :
    SlotStep platform m (.fork slot answers) other process := by
  unfold processFork at h
  split at h
  next parent childSlot hlive hfree =>
    have hmarked : Function.update m.slots slot (.live
        { parent with tables := (vmmCloneUserSpace m.frames parent.tables).2.1 }) other =
          .live process → SlotStep platform m (.fork slot answers) other process := by
      intro hupdate
      rcases update_slot hupdate with ⟨rfl, hstate⟩ | ⟨-, hother⟩
      · rw [← Slot.live.inj hstate]
        exact .parent answers other parent hlive
      · exact .of_same rfl hother
    dsimp only at h
    split at h
    · exact hmarked h
    next tables htables =>
    split at h
    · exact hmarked h
    next child hforked =>
    by_cases hchild : other = childSlot
    · subst hchild
      change Function.update _ other _ other = _ at h
      rw [Function.update_self] at h
      rw [← Slot.live.inj h, forkChild_eq hforked]
      exact .child answers slot other parent tables hlive hfree htables
    · change Function.update _ childSlot _ other = _ at h
      rw [Function.update_of_ne hchild] at h
      exact hmarked h
  · exact .of_same rfl h

/-- Every live process after a step comes from one before it in one of these ways. -/
theorem perform_slot : (perform platform m event).slots other = .live process →
    SlotStep platform m event other process := by
  cases event with dsimp only [perform]
  | create answers exec created =>
    fun_cases processCreate m answers exec created with
    | case2 staged frames hstage slot hslot =>
      intro h
      rcases update_slot h with ⟨rfl, hstate⟩ | ⟨-, hother⟩
      · rw [← Slot.live.inj hstate]
        exact .created answers exec other staged frames hslot hstage
      · exact .of_same rfl hother
    | _ => exact (.of_same rfl ·)
  | exec slot answers exec =>
    fun_cases processExec m slot answers exec with
    | case2 old hlive staged frames hstage =>
      intro h
      rcases update_slot h with ⟨rfl, hstate⟩ | ⟨-, hother⟩
      · rw [← Slot.live.inj hstate]
        exact .executed answers exec other old staged frames hlive hstage
      · exact .of_same rfl hother
    | _ => exact (.of_same rfl ·)
  | fork slot answers => exact .of_fork answers
  | exit slot =>
    fun_cases processExit m slot with
    | case1 =>
      intro h
      exact .of_same rfl ((update_slot h).resolve_left nofun).2
    | case2 => exact (.of_same rfl ·)
  | reap slot =>
    fun_cases reapProcess m slot with
    | case2 =>
      intro h
      exact .of_same rfl ((update_slot h).resolve_left nofun).2
    | _ => exact (.of_same rfl ·)
  | mmap | mprotect | munmap | brk | fault | store | copyin | copyout | ensure =>
    exact .of_call rfl
  | displayClaim slot =>
    fun_cases sysDisplayClaim m slot <;> exact (.of_same rfl ·)
  | displayMap slot answers requested flags => exact .of_displayMap answers requested flags
  | displayRelease slot answers => exact .of_displayRelease answers
  | shmCreate index count =>
    fun_cases vfsShmCreate m index count <;> exact (.of_same rfl ·)
  | shmClose index =>
    fun_cases vfsShmClose m index <;> exact (.of_same rfl ·)
  | driverAlloc =>
    fun_cases Vm.driverAlloc m <;> exact (.of_same rfl ·)
  | driverFree page =>
    fun_cases Vm.driverFree m page <;> exact (.of_same rfl ·)

end steps

def AllLive (slots : Fin 128 → Slot) (P : UserProcess → Prop) : Prop :=
  ∀ slot process, slots slot = .live process → P process

/-! ## What a step does to the areas of a process -/

def Event.Makes (m : Machine) : Event → Vma → Prop
  | .mmap _ _ arguments => arguments.Makes m.sharedObjects
  | .displayMap _ _ _ flags => Vma.MadeBy flags NPK_MAP_DEVICE none
  | _ => fun _ => False

def Event.Grants : Event → ℕ → ℕ → Word → Prop
  | .mprotect _ _ address length protection => Gives address length protection
  | _ => fun _ _ _ => False

def Machine.sources (m : Machine) : Sources :=
  { objects := m.sharedObjects, display := fun _ => False }

theorem userStore_changes {sources : Sources} {allowed : ℕ → PageFlags → Prop} (mem : Memory)
    (address : ℕ) (byte : BitVec 8) :
    PageChanges sources allowed mem ((userStore mem address byte).getD mem) := by
  unfold userStore
  dsimp only
  split
  · exact .refl
  next hphysical =>
    refine .single (.stored address _ [byte] rfl ?_)
    simp only [Bool.or_eq_true, decide_eq_true_eq, not_or] at hphysical
    exact hphysical.2

theorem Event.call_changes
    {f : Memory → Memory} (hcall : event.call platform m = some (slot, f)) {mem : Memory}
    (hok : mem.layout.Ok) :
    AreaChanges (event.Makes m) event.Grants mem.layout (f mem).layout := by
  have hpages : ∀ next, PageChanges m.sources mem.process.Allows mem next →
      AreaChanges (event.Makes m) event.Grants mem.layout next.layout := by
    intro next hchanges
    rw [hchanges.layout]
  cases event with
  | mmap slot answers arguments =>
    obtain ⟨-, rfl⟩ := Prod.mk.inj (Option.some.inj hcall)
    exact (sysMmap_result hok.cursor arguments).changes (fun _ => Or.inl) fun _ hvma => hvma.makes
  | mprotect slot answers address length protection =>
    obtain ⟨-, rfl⟩ := Prod.mk.inj (Option.some.inj hcall)
    exact sysMprotect_changes answers hok address length protection
  | munmap slot answers address length =>
    obtain ⟨-, rfl⟩ := Prod.mk.inj (Option.some.inj hcall)
    exact vmUnmap_changes answers mem address length
  | brk slot requested =>
    obtain ⟨-, rfl⟩ := Prod.mk.inj (Option.some.inj hcall)
    exact sysBrk_changes mem requested
  | fault slot answers address errorCode rsp =>
    obtain ⟨-, rfl⟩ := Prod.mk.inj (Option.some.inj hcall)
    exact hpages _ (vmHandlePageFault_changes answers address errorCode rsp)
  | store slot address byte =>
    obtain ⟨-, rfl⟩ := Prod.mk.inj (Option.some.inj hcall)
    exact hpages _ (userStore_changes mem address byte)
  | copyin slot answers address length =>
    obtain ⟨-, rfl⟩ := Prod.mk.inj (Option.some.inj hcall)
    exact hpages _ (vmmCopyin_changes mem answers address length)
  | copyout slot answers address bytes =>
    obtain ⟨-, rfl⟩ := Prod.mk.inj (Option.some.inj hcall)
    exact hpages _ (kernelWrite_changes mem answers true address bytes)
  | ensure slot answers address =>
    obtain ⟨-, rfl⟩ := Prod.mk.inj (Option.some.inj hcall)
    exact hpages _ (vmEnsureUserPage_changes answers address true)
  | displayMap slot answers requested flags =>
    obtain ⟨fb, -, hfb⟩ := Option.map_eq_some_iff.1 hcall
    cases hfb
    dsimp only
    split
    · exact .refl
    refine (vmMapDevice_result hok.cursor requested _ _ _ flags).changes (fun _ => id) ?_
    rintro vma ⟨-, -, hflags, hhandle, -⟩
    refine ⟨?_, hhandle⟩
    rw [hflags]
    exact or_and_not_or_or flags NPK_MAP_ANONYMOUS NPK_MAP_DEVICE
  | displayRelease slot answers =>
    obtain ⟨-, rfl⟩ := Prod.mk.inj (Option.some.inj hcall)
    dsimp only
    split
    · exact .refl
    · exact vmRevokeDeviceMappings_changes answers mem
  | _ => exact absurd hcall (by simp [Event.call])

theorem perform_ok (h : AllLive m.slots fun process => process.layout.Ok) :
    AllLive (perform platform m event).slots fun process => process.layout.Ok := by
  intro slot process hafter
  cases perform_slot hafter with
  | kept event slot process hlive hother => exact h slot process hlive
  | created answers exec slot process frames hslot hstage =>
    exact (stageExecImage_staged hstage).ok
  | executed answers exec slot old process frames hlive hstage =>
    exact (stageExecImage_staged hstage).ok
  | parent answers slot process hlive => exact h slot process hlive
  | child answers slot child process tables hlive hfree hclone =>
    exact (h slot process hlive).forked
  | called event slot process f hlive hcall =>
    have hmem : (Memory.layout { frames := m.frames, process := process }).Ok :=
      h slot process hlive
    exact hmem.afterChanges (Event.call_changes hcall hmem)

theorem boot_live (platform : Platform) (P : UserProcess → Prop) :
    AllLive (boot platform).slots P := by
  intro slot process hlive
  change (if slot = 0 then Slot.taken else .free) = .live process at hlive
  split at hlive <;> cases hlive

theorem run_ok (hrun : run (step platform) (boot platform) events = some m) :
    AllLive m.slots fun process => process.layout.Ok := by
  have hpreserve : ∀ m event next, AllLive m.slots (fun process => process.layout.Ok) →
      step platform m event = some next →
      AllLive next.slots fun process => process.layout.Ok := by
    intro m event next hinv hstep
    cases hstep
    exact perform_ok hinv
  exact invariant_always hpreserve (boot_live platform _) hrun

/-- In every run the areas of a process are well formed, and the calls that work on a
range change exactly that range. -/
theorem areas_wellFormed_and_exact (platform : Platform) (events : List Event) (m : Machine)
    (slot : Fin 128) (process : UserProcess)
    (hrun : run (step platform) (boot platform) events = some m)
    (hlive : m.slots slot = .live process) :
    (∀ vma ∈ process.vmas, vma.start < vma.stop ∧ vma.start % NPK_PAGE_SIZE = 0 ∧
      vma.stop % NPK_PAGE_SIZE = 0 ∧ 0x10000 ≤ vma.start ∧ vma.stop ≤ 0x800000000000 ∧
      writeAndExec vma.protection = false) ∧
    process.vmas.Pairwise (fun first second =>
      first.stop ≤ second.start ∨ second.stop ≤ first.start) ∧
    (∀ answers address length,
      let result := vmUnmap answers { frames := m.frames, process := process } address length
      ChangesRange process.vmas result.2.process.vmas result.1 address length none) ∧
    ∀ answers address length protection,
      let result := sysMprotect answers { frames := m.frames, process := process } address length
        protection
      ChangesRange process.vmas result.2.process.vmas result.1 address length
        (some protection) := by
  have hok : process.layout.Ok := run_ok hrun slot process hlive
  refine ⟨?_, hok.apart, ?_, ?_⟩
  · intro vma hvma
    have hvmaOk := hok.each vma hvma
    exact ⟨hvmaOk.nonempty, hvmaOk.start_aligned, hvmaOk.stop_aligned, hvmaOk.low, hvmaOk.high,
      hvmaOk.exclusive⟩
  · intro answers address length
    have hmem : (Memory.layout { frames := m.frames, process := process }).Ok := hok
    exact vmUnmap_changesRange answers hmem address length
  · intro answers address length protection
    have hmem : (Memory.layout { frames := m.frames, process := process }).Ok := hok
    exact sysMprotect_changesRange answers hmem address length protection

/-! ## A machine with one process -/

/-- A static executable with one segment of one page, readable and executable. -/
def sampleImage : Image :=
  [0x7f, 0x45, 0x4c, 0x46, 2, 1, 1, 0, 0, 0, 0, 0, 0, 0, 0, 0,
   2, 0, 62, 0, 1, 0, 0, 0, 0, 0, 0x40, 0, 0, 0, 0, 0,
   64, 0, 0, 0, 0, 0, 0, 0, 0, 0, 0, 0, 0, 0, 0, 0,
   0, 0, 0, 0, 64, 0, 56, 0, 1, 0, 0, 0, 0, 0, 0, 0,
   1, 0, 0, 0, 5, 0, 0, 0, 0, 0, 0, 0, 0, 0, 0, 0,
   0, 0, 0x40, 0, 0, 0, 0, 0, 0, 0, 0, 0, 0, 0, 0, 0,
   120, 0, 0, 0, 0, 0, 0, 0, 120, 0, 0, 0, 0, 0, 0, 0,
   0, 0, 0, 0, 0, 0, 0, 0]

def sampleExec : ExecArguments :=
  { image := sampleImage, interpreter := none, argv := [], envp := [] }

def sampleAnswers : Answers :=
  { kmalloc := fun _ => true, retain := fun _ => true, fileBacked := true, fileSize := 0x10000
    readAt := fun _ _ _ => some fun _ => 0 }

/-- Twenty-four pages of memory from 16 MiB on, and a framebuffer of one page. -/
def samplePlatform : Platform where
  memmap := [{ base := 4096 * NPK_PAGE_SIZE, length := 24 * NPK_PAGE_SIZE, usable := true }]
  contents := fun _ _ => 0
  framebuffer := some { physicalBase := 0xfd000000, mappingSize := NPK_PAGE_SIZE }
  framebuffer_reserved := by
    intro fb hfb page hlow hhigh
    cases hfb
    have hpage : page = 0xfd000 := Nat.le_antisymm (Nat.le_of_lt_succ hhigh) hlow
    rw [pmmInit_range (by decide) (by decide) (by decide), hpage]
    decide

def sampleBoot : Machine :=
  { frames := { used := fun page => !(Nat.ble 4096 page && Nat.blt page 4120)
                refs := fun _ => 0, freePages := 24, bytes := fun _ _ => 0 }
    slots := fun i => if i = 0 then .taken else .free
    objects := fun _ => none
    driverPages := []
    displayOwner := 0
    nextPid := 2 }

theorem boot_sample : boot samplePlatform = sampleBoot := by
  have hframes := @pmmInit_range 4096 24 (by decide) (by decide) (by decide) (fun _ _ => 0)
  rw [boot, samplePlatform, hframes]
  rfl

def Machine.processAt (m : Machine) (slot : Fin 128) : Option UserProcess :=
  match m.slots slot with
  | .live process => some process
  | _ => none

theorem Machine.slots_of_processAt
    (h : m.processAt slot = some process) : m.slots slot = .live process := by
  unfold Machine.processAt at h
  split at h
  next hlive => rw [hlive, Option.some.inj h]
  · simp at h

theorem sample_run {α : Type} {observe : Machine → UserProcess → α} {value : α}
    (h : ((run (step samplePlatform) sampleBoot events).bind fun m =>
      (m.processAt slot).map (observe m)) = some value) :
    ∃ m process, run (step samplePlatform) (boot samplePlatform) events = some m ∧
      m.slots slot = .live process ∧ observe m process = value := by
  obtain ⟨m, hrun, hm⟩ := Option.bind_eq_some_iff.1 h
  obtain ⟨process, hprocess, hvalue⟩ := Option.map_eq_some_iff.1 hm
  exact ⟨m, process, by rw [boot_sample, hrun], m.slots_of_processAt hprocess, hvalue⟩

def privateRequest (length : ℕ) : MmapArguments :=
  { requested := 0, length := length, protection := NPK_PROT_READ
    flags := NPK_MAP_PRIVATE ||| NPK_MAP_ANONYMOUS, fd := UINT64_MAX, handle := none, offset := 0 }

/-- Three pages are mapped, the second is made writable and the third is unmapped. -/
def mappingRun : List Event :=
  [.create sampleAnswers sampleExec true, .mmap 1 sampleAnswers (privateRequest 12288),
    .mprotect 1 sampleAnswers (VM_USER_MMAP_BASE + 4096) 4096 NPK_PROT_WRITE,
    .munmap 1 sampleAnswers (VM_USER_MMAP_BASE + 8192) 4096]

theorem sample_mapped :
    ∃ m process, run (step samplePlatform) (boot samplePlatform) mappingRun = some m ∧
      m.slots 1 = .live process ∧ process.mmapCursor = VM_USER_MMAP_BASE + 16384 ∧
      process.vmas.map Vma.stop = [VM_USER_MMAP_BASE + 4096, VM_USER_MMAP_BASE + 8192,
        0x100401000, 0x401000] ∧
      (vmUnmap sampleAnswers ⟨m.frames, process⟩ VM_USER_MMAP_BASE 4096).1 = 0 := by
  have hrun : ((run (step samplePlatform) sampleBoot mappingRun).bind fun m =>
      (m.processAt 1).map fun process => (process.mmapCursor, process.vmas.map Vma.stop,
        (vmUnmap sampleAnswers ⟨m.frames, process⟩ VM_USER_MMAP_BASE 4096).1)) =
      some (VM_USER_MMAP_BASE + 16384, [VM_USER_MMAP_BASE + 4096, VM_USER_MMAP_BASE + 8192,
        0x100401000, 0x401000], 0) := by
    decide +kernel
  obtain ⟨m, process, hm, hlive, hvalue⟩ := sample_run hrun
  simp only [Prod.mk.injEq] at hvalue
  exact ⟨m, process, hm, hlive, hvalue⟩

theorem areas_wellFormed_and_exact_sample :
    ∃ m process, run (step samplePlatform) (boot samplePlatform) mappingRun = some m ∧
      m.slots 1 = .live process ∧ process.vmas.length = 4 ∧
      process.vmas.Pairwise (fun first second =>
        first.stop ≤ second.start ∨ second.stop ≤ first.start) ∧
      ChangesRange process.vmas
        (vmUnmap sampleAnswers ⟨m.frames, process⟩ VM_USER_MMAP_BASE 4096).2.process.vmas
        0 VM_USER_MMAP_BASE 4096 none := by
  obtain ⟨m, process, hm, hlive, -, hstops, hresult⟩ := sample_mapped
  obtain ⟨-, hapart, hunmaps, -⟩ := areas_wellFormed_and_exact samplePlatform _ m 1 process hm hlive
  have hexact := hunmaps sampleAnswers VM_USER_MMAP_BASE 4096
  dsimp only at hexact
  rw [hresult] at hexact
  refine ⟨m, process, hm, hlive, ?_, hapart, hexact⟩
  simpa using congrArg List.length hstops

end NPKernel.Vm
