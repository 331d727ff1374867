import NPKernel.FutexWaits

/-!
# Fork, clone, exec, exit and wait

The calls of `src/proc/process.c` that create and end threads and processes.
The wait record of `wait4` belongs to the process, and `wake_parent_waiter`
looks for any blocked thread of the parent.
-/

namespace NPKernel

open RegisterStack

def PROCESS_ECHILD : Word := 10
def PROCESS_ENOSYS : Word := 38
def PROCESS_WNOHANG : Word := 1
def NPK_PAGE_SIZE : Word := 4096
def NPK_CLONE_SETTLS : Word := 0x80000
def NPK_CLONE_PARENT_SETTID : Word := 0x10000000
def NPK_CLONE_CHILD_CLEARTID : Word := 0x20000000
def NPK_CLONE_CHILD_SETTID : Word := 0x100000000
def NPK_CLONE_SYSVSEM : Word := 0x40000
def NPK_CLONE_THREAD_FLAGS : Word := 0x100 ||| 0x200 ||| 0x400 ||| 0x800 ||| 0x10000
def NPK_CLONE_OPTIONAL_FLAGS : Word :=
  NPK_CLONE_SETTLS ||| NPK_CLONE_PARENT_SETTID ||| NPK_CLONE_CHILD_CLEARTID |||
    NPK_CLONE_CHILD_SETTID ||| NPK_CLONE_SYSVSEM

def waitTargetMatches (target : ℤ) (pid : ℕ) : Bool :=
  target == -1 || decide (0 < target) && target == (pid : ℤ)

/-- The status word that `wait4` reports: `(uint32_t)exit_status << 8`. -/
def ProcessSlot.waitStatus (slot : ProcessSlot) : BitVec 32 :=
  (slot.exitStatus.setWidth 8).setWidth 32 <<< 8

def exitByte (status : Word) : Word :=
  (status.setWidth 8).setWidth 64

abbrev ProcessSlot.exited (slot : ProcessSlot) (status : Word) : ProcessSlot :=
  { slot with
    groupExiting := true
    threadCount := 0
    exitStatus := exitByte status
    alive := false
    addressSpaceRoot := 0 }

/-- What a call leaves behind: a value for its caller, or a blocked caller. -/
inductive CallOutcome where
  | returned (result : Word) (kernel : Kernel)
  | blocked (kernel : Kernel)

namespace Kernel

/-! ## Ending threads and processes -/

def firstBlocked (kernel : Kernel) (process : ProcId) : Option ThreadId :=
  threadIds.find? fun thread =>
    (kernel.threads thread).owner == some process && (kernel.threads thread).state == .blocked

def writeFrame (kernel : Kernel) (frame : Option FramePtr) (index : ℕ) (word : Word) : Kernel :=
  match frame with
  | some (.stackTop thread) =>
    kernel.setThread thread
      { kernel.threads thread with
        frame := Function.update (kernel.threads thread).frame index word }
  | _ => kernel

def wakeParentWaiter (answers : Answers) (kernel : Kernel) (child : ProcId) : Kernel :=
  let slot := kernel.processes child
  if slot.parentPid = 0 then kernel
  else
    match kernel.findProcessByPid slot.parentPid with
    | none => kernel
    | some parent =>
      let record := kernel.processes parent
      if !record.alive || !record.waitActive ||
          !waitTargetMatches record.waitTarget slot.pid then kernel
      else
        let statusOk := record.waitStatusUser == 0 ||
          answers.copyoutProcess32 parent record.waitStatusUser slot.waitStatus
        match kernel.firstBlocked parent with
        | none => kernel
        | some waiter =>
          let result := if statusOk then BitVec.ofNat 64 slot.pid else -PROCESS_EFAULT
          let woken := (kernel.setProcess parent
            { record with
              waitActive := false
              waitResult := result
              pendingReapPid := if statusOk then slot.pid else record.pendingReapPid
              waitWoken := true }).setThread waiter
            { kernel.threads waiter with state := .ready }
          woken.writeFrame (kernel.threads waiter).savedInterruptFrame 0 result

/-- The end of a process, once its threads are zombies: the memory goes, and
the parent is told. -/
def endProcess (answers : Answers) (kernel : Kernel) (process : ProcId) (status : Word) :
    Kernel :=
  wakeParentWaiter answers
    (kernel.setProcess process ((kernel.processes process).exited status)) process

/-- What both exits do to a thread: its word in user memory is cleared and its
wait cancelled. -/
def endThread (answers : Answers) (kernel : Kernel) (thread : ThreadId) : Kernel :=
  let cancelled := (clearChildTid answers kernel thread).futexCancelThread thread
  cancelled.setThread thread { cancelled.threads thread with state := .zombie }

/-- The loop of `process_exit_current` over the given slots. -/
def exitThreads (answers : Answers) (process : ProcId) : List ThreadId → Kernel → Kernel
  | [], kernel => kernel
  | thread :: threads, kernel =>
    if thread = 0 ∨ (kernel.threads thread).owner ≠ some process ∨
        (kernel.threads thread).state = .unused then
      exitThreads answers process threads kernel
    else exitThreads answers process threads (endThread answers kernel thread)

def processExitCurrent (answers : Answers) (kernel : Kernel) (status : Word) : Kernel :=
  match kernel.processCurrent with
  | none => kernel
  | some process =>
    if kernel.current = 0 ∨ !(kernel.processes process).alive then kernel
    else endProcess answers (exitThreads answers process threadIds kernel) process status

def firstLive (kernel : Kernel) (process : ProcId) : Option ThreadId :=
  threadIds.find? fun thread =>
    thread ≠ 0 && (kernel.threads thread).owner == some process &&
      (kernel.threads thread).state.live

def processExitThreadCurrent (answers : Answers) (kernel : Kernel) (status : Word) : Kernel :=
  match kernel.processCurrent with
  | none => kernel
  | some process =>
    if kernel.current = 0 ∨ !(kernel.processes process).alive ∨
        (kernel.processes process).groupExiting then kernel
    else
      let ended := endThread answers kernel kernel.current
      let slot := ended.processes process
      let counted := ended.setProcess process
        { slot with
          threadCount := slot.threadCount - 1
          mainThread :=
            if slot.mainThread = some kernel.current then ended.firstLive process
            else slot.mainThread }
      if slot.threadCount - 1 = 0 then endProcess answers counted process status
      else counted

/-! ## Reaping and waiting -/

/-- The slots of the process and of its threads are zeroed. -/
abbrev reaped (kernel : Kernel) (process : ProcId) : Kernel :=
  { kernel.setProcess process ProcessSlot.zero with
    threads := fun thread =>
      if thread ≠ 0 ∧ (kernel.threads thread).owner = some process then ThreadSlot.zero
      else kernel.threads thread }

def reapProcess (kernel : Kernel) (process : ProcId) : Kernel :=
  if process = kernelProcess ∨ (kernel.processes process).alive ∨
      (kernel.processes process).pid = 0 ∨ kernel.processCurrent = some process then kernel
  else kernel.reaped process

def processReapPending (kernel : Kernel) : Kernel :=
  match kernel.processCurrent with
  | none => kernel
  | some parent =>
    let slot := kernel.processes parent
    if slot.pendingReapPid = 0 then kernel
    else
      let taken := kernel.setProcess parent { slot with pendingReapPid := 0 }
      match taken.findProcessByPid slot.pendingReapPid with
      | none => taken
      | some child =>
        if (taken.processes child).parentPid = slot.pid ∧ !(taken.processes child).alive then
          taken.reapProcess child
        else taken

def waitable (kernel : Kernel) (parent : ProcId) (target : ℤ) (child : ProcId) : Bool :=
  child ≠ kernelProcess && (kernel.processes child).pid != 0 &&
    (kernel.processes child).parentPid == (kernel.processes parent).pid &&
    waitTargetMatches target (kernel.processes child).pid

def exitedChild (kernel : Kernel) (parent : ProcId) (target : ℤ) : Option ProcId :=
  processIds.find? fun child =>
    kernel.waitable parent target child && !(kernel.processes child).alive

/-- The running thread is blocked until the end of a child. -/
abbrev waitBlocked (kernel : Kernel) (parent : ProcId) (target : ℤ) (userStatus : Word) :
    Kernel :=
  { (kernel.setProcess parent
      { kernel.processes parent with
        waitActive := true
        waitWoken := false
        waitResult := -PROCESS_EAGAIN
        waitTarget := target
        waitStatusUser := userStatus }).setThread kernel.current
        { kernel.running with state := .blocked } with
    mode := .yielding .wait4 }

def processWait4 (answers : Answers) (kernel : Kernel) (target : ℤ)
    (userStatus options : Word) : CallOutcome :=
  match kernel.processCurrent with
  | none => .returned (-PROCESS_EFAULT) kernel
  | some parent =>
    let slot := kernel.processes parent
    if !slot.alive ∨ kernel.running.privilegeRing ≠ 3 then
      .returned (-PROCESS_EFAULT) kernel
    else if target = 0 ∨ target < -1 ∨ options &&& ~~~PROCESS_WNOHANG ≠ 0 then
      .returned (-PROCESS_EINVAL) kernel
    else if userStatus ≠ 0 ∧ !vmmIsUserRange userStatus 4 then
      .returned (-PROCESS_EFAULT) kernel
    else
      match kernel.exitedChild parent target with
      | some child =>
        if userStatus ≠ 0 ∧ !answers.copyoutProcess32 parent userStatus
            (kernel.processes child).waitStatus then
          .returned (-PROCESS_EFAULT) kernel
        else
          .returned (BitVec.ofNat 64 (kernel.processes child).pid) (kernel.reapProcess child)
      | none =>
        if !processIds.any (kernel.waitable parent target) then
          .returned (-PROCESS_ECHILD) kernel
        else if options &&& PROCESS_WNOHANG ≠ 0 then .returned 0 kernel
        else .blocked (kernel.waitBlocked parent target userStatus)

/-- The running thread's `wait4` has returned: it runs, and its process waits no longer. -/
abbrev awakened (kernel : Kernel) (parent : ProcId) : Kernel :=
  (kernel.setProcess parent
    { kernel.processes parent with waitActive := false, waitWoken := false }).setThread
      kernel.current { kernel.running with state := .running }

/-- The rest of `process_wait4`, when `scheduler_yield` returns to it. -/
def processWait4Tail (answers : Answers) (kernel : Kernel) : Word × Kernel :=
  match kernel.processCurrent with
  | none => (-PROCESS_EAGAIN, kernel)
  | some parent =>
    let slot := kernel.processes parent
    let awake := kernel.awakened parent
    if !slot.waitWoken then (-PROCESS_EAGAIN, awake)
    else if slot.waitResult.toInt ≤ 0 then (slot.waitResult, awake)
    else
      match awake.findProcessByPid slot.waitResult.toNat with
      | none => (slot.waitResult, awake)
      | some child =>
        if (awake.processes child).alive then (slot.waitResult, awake)
        else if slot.waitStatusUser ≠ 0 ∧ !answers.copyoutProcess32 parent
            slot.waitStatusUser (awake.processes child).waitStatus then
          (-PROCESS_EFAULT, awake)
        else (slot.waitResult, awake.reapProcess child)

/-! ## Creating threads and processes -/

def freeProcess (kernel : Kernel) : Option ProcId :=
  processIds.find? fun process =>
    process ≠ kernelProcess && (kernel.processes process).pid == 0

/-- The main thread of a forked child.  Its FS and GS bases and its mask come
from the main thread of the parent. -/
def forkThread (kernel : Kernel) (parent child : ProcId) (thread : ThreadId) (tid : ℕ)
    (root : Word) (frame : SyscallFrame) : ThreadSlot :=
  let main := (kernel.processes parent).mainThread.map kernel.threads
  { ThreadSlot.zero with
    tid := tid
    state := .ready
    privilegeRing := 3
    owner := some child
    context := { CpuContext.zero with
      rip := frame.iret.rip, rsp := frame.iret.rsp, rflags := frame.iret.rflags, cr3 := root }
    fsBase := (main.map fun main => main.fsBase).getD 0
    gsBase := (main.map fun main => main.gsBase).getD 0
    signalBlocked := (main.map fun main => main.signalBlocked).getD 0
    savedInterruptFrame := some (.stackTop thread)
    savedFrameKind := .interrupt
    frame := forkFrame frame 0 }

def forkProcess (kernel : Kernel) (parent : ProcId) (thread : ThreadId) (root : Word) :
    ProcessSlot :=
  { ProcessSlot.zero with
    pid := kernel.nextPid
    parentPid := (kernel.processes parent).pid
    threadCount := 1
    alive := true
    addressSpaceRoot := root
    signalActions := (kernel.processes parent).signalActions
    mainThread := some thread }

/-- `process_fork`.  A failure after `allocate_thread` clears both slots and
keeps the numbers it has used. -/
def processFork (answers : Answers) (kernel : Kernel) (frame : SyscallFrame) : Word × Kernel :=
  match kernel.processCurrent with
  | none => (-22, kernel)
  | some parent =>
    if !(kernel.processes parent).alive ∨ kernel.running.privilegeRing ≠ 3 then (-22, kernel)
    else
      match kernel.freeProcess with
      | none => (-11, kernel)
      | some child =>
        if answers.vmmCloneUserSpace = 0 then (-12, kernel)
        else
          match kernel.allocateThread with
          | none => (-11, kernel)
          | some (thread, taken) =>
            let undone := { (taken.setThread thread ThreadSlot.zero).setProcess child
              ProcessSlot.zero with nextPid := kernel.nextPid + 1 }
            if !answers.retainFds then (-24, undone)
            else if !answers.vmCloneMetadata then (-12, undone)
            else if !answers.kernelStack then (-12, undone)
            else
              (BitVec.ofNat 64 kernel.nextPid,
                { (taken.setThread thread
                    (kernel.forkThread parent child thread kernel.nextTid
                      answers.vmmCloneUserSpace frame)).setProcess child
                    (kernel.forkProcess parent thread answers.vmmCloneUserSpace) with
                  nextPid := kernel.nextPid + 1 })

/-- The argument checks of `process_clone`, in order. -/
def cloneError (answers : Answers) (process : ProcId)
    (flags childStack parentTid tls childTid : Word) : Option Word :=
  if flags &&& NPK_CLONE_THREAD_FLAGS ≠ NPK_CLONE_THREAD_FLAGS ∨
      flags &&& ~~~(NPK_CLONE_THREAD_FLAGS ||| NPK_CLONE_OPTIONAL_FLAGS) ≠ 0 then
    some (-PROCESS_ENOSYS)
  else if childStack = 0 ∨ childStack &&& 0xf ≠ 0 ∨ childStack < NPK_PAGE_SIZE ∨
      !vmmIsUserRange (childStack - 16) 16 then some (-PROCESS_EFAULT)
  else if hasBit flags NPK_CLONE_PARENT_SETTID ∧
      (parentTid = 0 ∨ !vmmIsUserRange parentTid 4) then some (-PROCESS_EFAULT)
  else if hasBit flags (NPK_CLONE_CHILD_SETTID ||| NPK_CLONE_CHILD_CLEARTID) ∧
      (childTid = 0 ∨ !vmmIsUserRange childTid 4) then some (-PROCESS_EFAULT)
  else if hasBit flags NPK_CLONE_SETTLS ∧ tls ≠ 0 ∧ !vmmIsUserRange tls 1 then
    some (-PROCESS_EFAULT)
  else if !answers.vmEnsureUserPage process (childStack - 1) then some (-PROCESS_EFAULT)
  else none

def cloneThread (kernel : Kernel) (process : ProcId) (thread : ThreadId) (tid : ℕ)
    (flags childStack tls childTid : Word) (frame : SyscallFrame) : ThreadSlot :=
  { ThreadSlot.zero with
    tid := tid
    state := .ready
    privilegeRing := 3
    owner := some process
    context := { CpuContext.zero with
      rip := frame.iret.rip
      rsp := childStack
      rflags := frame.iret.rflags
      cr3 := (kernel.processes process).addressSpaceRoot }
    fsBase := if hasBit flags NPK_CLONE_SETTLS then tls else kernel.running.fsBase
    gsBase := kernel.running.gsBase
    signalBlocked := kernel.running.signalBlocked
    savedInterruptFrame := some (.stackTop thread)
    savedFrameKind := .interrupt
    frame := forkFrame frame childStack
    clearChildTid := if hasBit flags NPK_CLONE_CHILD_CLEARTID then childTid else 0 }

def processClone (answers : Answers) (kernel : Kernel)
    (flags childStack parentTid tls childTid : Word) (frame : SyscallFrame) : Word × Kernel :=
  match kernel.processCurrent with
  | none => (-PROCESS_EPERM, kernel)
  | some process =>
    if !(kernel.processes process).alive ∨ kernel.running.privilegeRing ≠ 3 then
      (-PROCESS_EPERM, kernel)
    else
      match cloneError answers process flags childStack parentTid tls childTid with
      | some error => (error, kernel)
      | none =>
        match kernel.allocateThread with
        | none => (-PROCESS_EAGAIN, kernel)
        | some (thread, taken) =>
          let undone := taken.setThread thread ThreadSlot.zero
          let tid : BitVec 32 := BitVec.ofNat 32 kernel.nextTid
          if !answers.kernelStack then (-PROCESS_ENOMEM, undone)
          else if hasBit flags NPK_CLONE_PARENT_SETTID ∧
              !answers.copyoutProcess32 process parentTid tid then
            (-PROCESS_EFAULT, undone)
          else if hasBit flags NPK_CLONE_CHILD_SETTID ∧
              !answers.copyoutProcess32 process childTid tid then
            (-PROCESS_EFAULT, undone)
          else
            let created := taken.setThread thread
              (kernel.cloneThread process thread kernel.nextTid flags childStack tls childTid frame)
            let slot := kernel.processes process
            if slot.threadCount = UINT32_MAX then
              (-PROCESS_EAGAIN,
                (clearChildTid answers created thread).setThread thread ThreadSlot.zero)
            else
              (BitVec.ofNat 64 kernel.nextTid,
                created.setProcess process
                  { slot with threadCount := slot.threadCount + 1 })

def processSetTidAddress (kernel : Kernel) (address : Word) : Word × Kernel :=
  match kernel.processCurrent with
  | none => (-PROCESS_EPERM, kernel)
  | some _ =>
    if kernel.running.privilegeRing ≠ 3 then (-PROCESS_EPERM, kernel)
    else if address ≠ 0 ∧ !vmmIsUserRange address 4 then (-PROCESS_EFAULT, kernel)
    else
      (BitVec.ofNat 64 kernel.running.tid,
        kernel.setThread kernel.current { kernel.running with clearChildTid := address })

/-! ## Replacing the image -/

def execThread (slot : ThreadSlot) (staged : StagedExec) : ThreadSlot :=
  { slot with
    toThread :=
      { execSignalReset slot.toThread with
        fsBase := 0
        gsBase := 0
        context :=
          { slot.context with
            cr3 := staged.addressSpaceRoot
            rip := staged.entry
            rsp := staged.initialStack
            rflags := 0x202 } }
    savedContext := none }

def processActivate (kernel : Kernel) (process : ProcId) : Kernel :=
  let slot := kernel.processes process
  if !slot.alive then kernel
  else
    match slot.mainThread with
    | none => kernel
    | some main => kernel.madeCurrent main

/-- The caller of an exec has the staged image. -/
def execCaller (kernel : Kernel) (process : ProcId) (staged : StagedExec) : Kernel :=
  (kernel.setProcess process
    { kernel.processes process with
      addressSpaceRoot := staged.addressSpaceRoot
      signalActions := fun _ => SigAction.zero }).setThread kernel.current
      (execThread kernel.running staged)

/-- `process_exec_current`; without a staged image nothing has happened. -/
def processExecCurrent (answers : Answers) (kernel : Kernel) : Word × Kernel :=
  match kernel.processCurrent with
  | none => (-PROCESS_EFAULT, kernel)
  | some process =>
    if kernel.running.privilegeRing ≠ 3 then (-PROCESS_EFAULT, kernel)
    else
      match answers.stageExecImage with
      | none => (-PROCESS_EINVAL, kernel)
      | some staged => (0, (kernel.execCaller process staged).processActivate process)

end Kernel

end NPKernel
