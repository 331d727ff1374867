import NPKernel.ElfImages
import NPKernel.GuardedRuns
import NPKernel.PersistentFiles

/-!
# The memory of all processes

The process table, the shared-memory objects and the display lease over one pool
of pages, and the system calls, faults and stores that work on them.
-/

namespace NPKernel.Vm

open RadixTables

/-- An entry of the process table.  The kernel's own entry and those of processes
that have exited but are not yet reaped have no user memory. -/
inductive Slot where
  | free
  | taken
  | live (process : UserProcess)

structure Framebuffer where
  physicalBase : ℕ
  mappingSize : ℕ

/-- The machine the kernel is started on.  The framebuffer is not ordinary memory:
its pages are not in the memory map's usable ranges. -/
structure Platform where
  memmap : List MemmapEntry
  contents : ℕ → ℕ → BitVec 8
  framebuffer : Option Framebuffer
  framebuffer_reserved : ∀ fb, framebuffer = some fb →
    ∀ page, fb.physicalBase / NPK_PAGE_SIZE ≤ page →
      page < (fb.physicalBase + fb.mappingSize) / NPK_PAGE_SIZE →
      page ≠ 0 ∧ (pmmInit memmap contents).used page = true

structure Machine where
  frames : Frames
  slots : Fin 128 → Slot
  objects : Fin 64 → Option (List ℕ)
  driverPages : List ℕ
  displayOwner : ℕ
  nextPid : ℕ

def boot (platform : Platform) : Machine :=
  { frames := pmmInit platform.memmap platform.contents
    slots := fun i => if i = 0 then .taken else .free
    objects := fun _ => none
    driverPages := []
    displayOwner := 0
    nextPid := 2 }

def Machine.sharedObjects (m : Machine) : Objects := fun handle =>
  (descriptorSlot handle).bind m.objects

def Machine.setMemory (m : Machine) (slot : Fin 128) (mem : Memory) : Machine :=
  { m with frames := mem.frames, slots := Function.update m.slots slot (.live mem.process) }

def Machine.call (m : Machine) (slot : Fin 128) (f : Memory → Memory) : Machine :=
  match m.slots slot with
  | .live process => m.setMemory slot (f { frames := m.frames, process := process })
  | _ => m

/-! ## Creating and ending processes -/

structure ForkAnswers where
  thread : Bool
  descriptors : Bool
  kmalloc : ℕ → Bool
  retain : ℕ → Bool
  kernelStack : Bool

def vmCloneMetadata (answers : ForkAnswers) : List Vma → ℕ → Option (List Vma)
  | [], _ => some []
  | vma :: rest, requests =>
    if hasBit vma.flags NPK_MAP_DEVICE then vmCloneMetadata answers rest requests
    else if !answers.kmalloc requests ||
        (vma.backingHandle.isSome && !answers.retain requests) then none
    else (vmCloneMetadata answers rest (requests + 1)).map (vma :: ·)

def Machine.freeSlot (m : Machine) : Option (Fin 128) :=
  (List.finRange 128).find? fun i =>
    match m.slots i with
    | .free => true
    | _ => false

def Machine.deadSlot (m : Machine) : Option (Fin 128) :=
  (List.finRange 128).find? fun i =>
    match m.slots i with
    | .live _ => false
    | _ => i ≠ 0

def forkChild (answers : ForkAnswers) (pid : ℕ) (tables : PageTree) (parent : UserProcess) :
    Option UserProcess :=
  if !answers.thread || !answers.descriptors then none
  else
    match vmCloneMetadata answers parent.vmas 0 with
    | none => none
    | some vmas =>
      if !answers.kernelStack then none
      else some { parent with pid := pid, tables := tables, vmas := vmas }

def processFork (m : Machine) (slot : Fin 128) (answers : ForkAnswers) : Machine :=
  match m.slots slot, m.freeSlot with
  | .live parent, some childSlot =>
    let result := vmmCloneUserSpace m.frames parent.tables
    let m := m.setMemory slot
      { frames := result.2.2, process := { parent with tables := result.2.1 } }
    match result.1 with
    | none => m
    | some tables =>
      let pid := if answers.thread then m.nextPid + 1 else m.nextPid
      match forkChild answers m.nextPid tables parent with
      | none =>
        { m with frames := vmmDestroyAddressSpace m.frames tables, nextPid := pid }
      | some child =>
        { m with
          slots := Function.update m.slots childSlot (.live child), nextPid := pid }
  | _, _ => m

def processCreate (m : Machine) (answers : Answers) (exec : ExecArguments)
    (created : Bool) : Machine :=
  match stageExecImage answers m.sharedObjects exec m.nextPid m.frames with
  | (none, frames) => { m with frames := frames }
  | (some process, frames) =>
    match created, m.deadSlot with
    | true, some slot =>
      { m with
        frames := frames, slots := Function.update m.slots slot (.live process)
        nextPid := m.nextPid + 1 }
    | _, _ => { m with frames := vmmDestroyAddressSpace frames process.tables }

def processExec (m : Machine) (slot : Fin 128) (answers : Answers) (exec : ExecArguments) :
    Machine :=
  match m.slots slot with
  | .live process =>
    match stageExecImage answers m.sharedObjects exec process.pid m.frames with
    | (none, frames) => { m with frames := frames }
    | (some staged, frames) =>
      { m with
        frames := vmmDestroyAddressSpace frames process.tables
        slots := Function.update m.slots slot (.live staged) }
  | _ => m

/-- The process is marked dead first, so the revocation of its device mappings has no
effect; its whole address space is destroyed. -/
def processExit (m : Machine) (slot : Fin 128) : Machine :=
  match m.slots slot with
  | .live process =>
    { m with
      frames := vmmDestroyAddressSpace m.frames process.tables
      slots := Function.update m.slots slot .taken
      displayOwner := if m.displayOwner = process.pid then 0 else m.displayOwner }
  | _ => m

def reapProcess (m : Machine) (slot : Fin 128) : Machine :=
  match m.slots slot with
  | .taken =>
    if slot = 0 then m else { m with slots := Function.update m.slots slot .free }
  | _ => m

/-! ## Shared-memory objects, driver pages and the display -/

def SHM_MAX_PAGES : ℕ := 256

def shmPages : ℕ → List ℕ → Frames → Option (List ℕ) × Frames
  | 0, pages, frames => (some pages, frames)
  | count + 1, pages, frames =>
    match allocFrame frames with
    | (none, frames) => (none, pages.foldl freeFrame frames)
    | (some page, frames) =>
      shmPages count (pages ++ [page]) (frames.store page fun _ => 0)

def vfsShmCreate (m : Machine) (index : Fin 64) (count : ℕ) : Machine :=
  if count = 0 || SHM_MAX_PAGES < count || (m.objects index).isSome then m
  else
    match shmPages count [] m.frames with
    | (none, frames) => { m with frames := frames }
    | (some pages, frames) =>
      { m with frames := frames, objects := Function.update m.objects index (some pages) }

def vfsShmClose (m : Machine) (index : Fin 64) : Machine :=
  match m.objects index with
  | none => m
  | some pages =>
    { m with
      frames := pages.foldl freeUnlessZero m.frames
      objects := Function.update m.objects index none }

def driverAlloc (m : Machine) : Machine :=
  match allocFrame m.frames with
  | (none, frames) => { m with frames := frames }
  | (some page, frames) => { m with frames := frames, driverPages := page :: m.driverPages }

def driverFree (m : Machine) (page : ℕ) : Machine :=
  if page ∈ m.driverPages then
    { m with frames := freeFrame m.frames page, driverPages := m.driverPages.erase page }
  else m

def sysDisplayClaim (m : Machine) (slot : Fin 128) : Machine :=
  match m.slots slot with
  | .live process =>
    if m.displayOwner ≠ 0 && m.displayOwner ≠ process.pid then m
    else { m with displayOwner := process.pid }
  | _ => m

def sysDisplayMap (platform : Platform) (m : Machine) (slot : Fin 128) (answers : Answers)
    (requested : ℕ) (flags : Word) : Except ℤ ℕ × Machine :=
  match m.slots slot with
  | .live process =>
    if m.displayOwner ≠ process.pid then (.error (-1), m)
    else if !hasBit flags NPK_MAP_SHARED || hasBit flags NPK_MAP_PRIVATE ||
        hasBit flags NPK_MAP_ANONYMOUS then (.error (-22), m)
    else
      match platform.framebuffer with
      | none => (.error (-19), m)
      | some fb =>
        let result := vmMapDevice answers { frames := m.frames, process := process } requested
          fb.physicalBase fb.mappingSize (NPK_PROT_READ ||| NPK_PROT_WRITE) flags
        (result.1, m.setMemory slot result.2)
  | _ => (.error (-1), m)

def sysDisplayRelease (m : Machine) (slot : Fin 128) (answers : Answers) : Machine :=
  match m.slots slot with
  | .live process =>
    if m.displayOwner ≠ process.pid then m
    else { m.call slot (vmRevokeDeviceMappings answers) with displayOwner := 0 }
  | _ => m

/-! ## Mapping calls and user stores -/

def NPK_MAX_FDS : ℕ := 32

/-- The arguments of an mmap call, and the handle of its descriptor if it is open. -/
structure MmapArguments where
  requested : ℕ
  length : ℕ
  protection : Word
  flags : Word
  fd : ℕ
  handle : Option ℕ
  offset : ℕ

def sysMmap (answers : Answers) (objects : Objects) (arguments : MmapArguments)
    (mem : Memory) : Except ℤ ℕ × Memory :=
  let ⟨requested, length, protection, flags, fd, handle, offset⟩ := arguments
  if length = 0 || hasBit protection (~~~7) || writeAndExec protection ||
      !hasBit flags (NPK_MAP_SHARED ||| NPK_MAP_PRIVATE) then (.error (-22), mem)
  else if hasBit flags NPK_MAP_ANONYMOUS then
    if fd ≠ UINT64_MAX || offset ≠ 0 then (.error (-22), mem)
    else vmMapAnonymous answers mem requested length protection flags
  else if NPK_MAX_FDS ≤ fd || offset % NPK_PAGE_SIZE ≠ 0 then (.error (-22), mem)
  else
    match handle with
    | none => (.error (-9), mem)
    | some handle =>
      if (objects handle).isSome then
        vmMapShared answers objects mem handle requested length protection flags offset
      else vmMapFile answers mem handle requested length protection flags offset

def userStore (mem : Memory) (address : ℕ) (byte : BitVec 8) : Option Memory :=
  let physical := vmmLookupRoot mem.process.tables address { user := true, write := true }
  if USER_LIMIT ≤ address || physical = 0 then none
  else some (mem.setFrames (mem.frames.writeBytes physical [byte]))

inductive Event where
  | create (answers : Answers) (exec : ExecArguments) (created : Bool)
  | exec (slot : Fin 128) (answers : Answers) (exec : ExecArguments)
  | fork (slot : Fin 128) (answers : ForkAnswers)
  | exit (slot : Fin 128)
  | reap (slot : Fin 128)
  | mmap (slot : Fin 128) (answers : Answers) (arguments : MmapArguments)
  | mprotect (slot : Fin 128) (answers : Answers) (address length : ℕ) (protection : Word)
  | munmap (slot : Fin 128) (answers : Answers) (address length : ℕ)
  | brk (slot : Fin 128) (requested : ℕ)
  | fault (slot : Fin 128) (answers : Answers) (address : ℕ) (errorCode : Word) (rsp : ℕ)
  | store (slot : Fin 128) (address : ℕ) (byte : BitVec 8)
  | copyin (slot : Fin 128) (answers : Answers) (address length : ℕ)
  | copyout (slot : Fin 128) (answers : Answers) (address : ℕ) (bytes : List (BitVec 8))
  | ensure (slot : Fin 128) (answers : Answers) (address : ℕ)
  | displayClaim (slot : Fin 128)
  | displayMap (slot : Fin 128) (answers : Answers) (requested : ℕ) (flags : Word)
  | displayRelease (slot : Fin 128) (answers : Answers)
  | shmCreate (index : Fin 64) (count : ℕ)
  | shmClose (index : Fin 64)
  | driverAlloc
  | driverFree (page : ℕ)

def perform (platform : Platform) (m : Machine) : Event → Machine
  | .create answers exec created => processCreate m answers exec created
  | .exec slot answers exec => processExec m slot answers exec
  | .fork slot answers => processFork m slot answers
  | .exit slot => processExit m slot
  | .reap slot => reapProcess m slot
  | .mmap slot answers arguments =>
    m.call slot fun mem => (sysMmap answers m.sharedObjects arguments mem).2
  | .mprotect slot answers address length protection =>
    m.call slot fun mem => (sysMprotect answers mem address length protection).2
  | .munmap slot answers address length =>
    m.call slot fun mem => (vmUnmap answers mem address length).2
  | .brk slot requested => m.call slot fun mem => (sysBrk mem requested).2
  | .fault slot answers address errorCode rsp =>
    m.call slot fun mem =>
      (vmHandlePageFault answers m.sharedObjects mem address errorCode rsp).2
  | .store slot address byte =>
    m.call slot fun mem => (userStore mem address byte).getD mem
  | .copyin slot answers address length =>
    m.call slot fun mem => (vmmCopyin answers m.sharedObjects mem address length).2
  | .copyout slot answers address bytes =>
    m.call slot fun mem => (vmmCopyout answers m.sharedObjects mem address bytes).2
  | .ensure slot answers address =>
    m.call slot fun mem => (vmEnsureUserPage answers m.sharedObjects mem address true).2
  | .displayClaim slot => sysDisplayClaim m slot
  | .displayMap slot answers requested flags =>
    (sysDisplayMap platform m slot answers requested flags).2
  | .displayRelease slot answers => sysDisplayRelease m slot answers
  | .shmCreate index count => vfsShmCreate m index count
  | .shmClose index => vfsShmClose m index
  | .driverAlloc => Vm.driverAlloc m
  | .driverFree page => Vm.driverFree m page

def step (platform : Platform) (m : Machine) (event : Event) : Option Machine :=
  some (perform platform m event)

end NPKernel.Vm
