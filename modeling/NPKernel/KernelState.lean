import NPKernel.FaultSignals

/-!
# The tables of the kernel

The static state of `src/proc/process.c`: the thread and process tables, the
futex waiters and the running thread, together with the keyboard's waiter and
the position of the CPU.  The kernel runs on one processor and is not
preempted, so between two events the CPU is in user mode, in one of the loops
that wait for an interrupt, or about to run `scheduler_yield`.

The identifiers of processes and threads are `uint64_t` counters in the source
and numbers here: a run in which a counter wraps around is left out.

User memory, the page and kernel-stack allocators, the loader and the
descriptor table are outside this state.  What they answer during an event is
part of the event, and the results below hold for all answers.
-/

namespace NPKernel

open RegisterStack

inductive YieldSite where
  | wait4 | futex | schedYield | terminal | idle | exit
  deriving DecidableEq, Repr

inductive Mode where
  | user
  | yielding (site : YieldSite)
  -- at the head of the loop of `keyboard_getchar_blocking`
  | terminal
  -- in the `sti; hlt` of `timer_sleep_ticks`; `ppoll` keeps the mask to put back
  | sleeping (mask : Option Word)
  -- in the `sti; hlt` of `bsp_idle_entry`
  | idle
  | halted
  -- in ring 0 at an address or on a stack that the kernel did not choose
  | lost
  deriving DecidableEq, Repr

/-- `thread_t` with the words at the top of its kernel stack, the ring that
`keyboard_getchar_blocking` keeps in a local variable, and the call of
`scheduler_yield` whose registers `context_switch` stored last. -/
structure ThreadSlot extends Thread where
  clearChildTid : Word
  userRing : ℕ
  frame : Stack Word
  savedContext : Option YieldSite

def ThreadSlot.zero : ThreadSlot where
  toThread := Thread.zero
  clearChildTid := 0
  userRing := 0
  frame := fun _ => 0
  savedContext := none

structure ProcessSlot extends Process where
  addressSpaceRoot : Word
  waitStatusUser : Word

def ProcessSlot.zero : ProcessSlot where
  toProcess := Process.zero
  addressSpaceRoot := 0
  waitStatusUser := 0

structure FutexWaiter where
  active : Bool
  thread : ThreadId
  addressSpaceRoot : Word
  userAddress : Word
  deadline : Word
  timed : Bool

structure Kernel where
  threads : ThreadId → ThreadSlot
  processes : ProcId → ProcessSlot
  futexWaiters : Fin 256 → FutexWaiter
  current : ThreadId
  nextPid : ℕ
  nextTid : ℕ
  timerTicks : Word
  reschedulePending : Bool
  inputWaiter : Option ThreadId
  inputQueued : ℕ
  mode : Mode

def kernelProcess : ProcId := 0

/-- `bsp_idle_thread`: the first slot that `process_init` allocates. -/
def bspIdleThread : ThreadId := 1

structure StagedExec where
  addressSpaceRoot : Word
  entry : Word
  initialStack : Word

/-- The answers of user memory, the allocators, the loader and the descriptor
table during one event. -/
structure Answers where
  access : UserAccess Unit
  vmmCopyout : Word → ℕ → Bool
  copyin32 : Word → Option (BitVec 32)
  copyoutProcess32 : ProcId → Word → BitVec 32 → Bool
  vmEnsureUserPage : ProcId → Word → Bool
  vmmCloneUserSpace : Word
  retainFds : Bool
  vmCloneMetadata : Bool
  kernelStack : Bool
  stageExecImage : Option StagedExec
  readsTerminal : Bool
  sleeps : Bool
  otherResult : Word

@[irreducible]
def threadIds : List ThreadId := List.finRange 256

@[irreducible]
def processIds : List ProcId := List.finRange 128

theorem mem_threadIds (thread : ThreadId) : thread ∈ threadIds := by
  unfold threadIds
  exact List.mem_finRange thread

def ThreadState.live : ThreadState → Bool
  | .unused | .zombie => false
  | .ready | .running | .blocked => true

namespace Kernel

variable (kernel : Kernel)

def setThread (thread : ThreadId) (slot : ThreadSlot) : Kernel :=
  { kernel with threads := Function.update kernel.threads thread slot }

def setProcess (process : ProcId) (slot : ProcessSlot) : Kernel :=
  { kernel with processes := Function.update kernel.processes process slot }

@[simp]
theorem setThread_threads (thread other : ThreadId) (slot : ThreadSlot) :
    (kernel.setThread thread slot).threads other =
      if other = thread then slot else kernel.threads other := by
  simp [setThread, Function.update_apply]

@[simp]
theorem setThread_processes (thread : ThreadId) (slot : ThreadSlot) :
    (kernel.setThread thread slot).processes = kernel.processes := rfl

@[simp]
theorem setThread_current (thread : ThreadId) (slot : ThreadSlot) :
    (kernel.setThread thread slot).current = kernel.current := rfl

@[simp]
theorem setProcess_processes (process other : ProcId) (slot : ProcessSlot) :
    (kernel.setProcess process slot).processes other =
      if other = process then slot else kernel.processes other := by
  simp [setProcess, Function.update_apply]

@[simp]
theorem setProcess_threads (process : ProcId) (slot : ProcessSlot) :
    (kernel.setProcess process slot).threads = kernel.threads := rfl

@[simp]
theorem setProcess_current (process : ProcId) (slot : ProcessSlot) :
    (kernel.setProcess process slot).current = kernel.current := rfl

def running : ThreadSlot := kernel.threads kernel.current

abbrev madeCurrent (thread : ThreadId) : Kernel :=
  { kernel.setThread thread { kernel.threads thread with state := .running } with
    current := thread }

def processCurrent : Option ProcId := kernel.running.owner

def findProcessByPid (pid : ℕ) : Option ProcId :=
  processIds.find? fun process =>
    process ≠ kernelProcess && (kernel.processes process).pid == pid

def ownerAlive (slot : ThreadSlot) : Bool :=
  match slot.owner with
  | some process => (kernel.processes process).alive
  | none => false

def allocateThread : Option (ThreadId × Kernel) :=
  match threadIds.find? fun thread =>
      thread ≠ 0 && (kernel.threads thread).state == .unused with
  | none => none
  | some thread =>
    some (thread,
      { kernel.setThread thread
          { ThreadSlot.zero with tid := kernel.nextTid, state := .ready } with
        nextTid := kernel.nextTid + 1 })

theorem allocateThread_some {thread : ThreadId} {taken : Kernel}
    (h : kernel.allocateThread = some (thread, taken)) :
    thread ≠ 0 ∧ (kernel.threads thread).state = .unused ∧
      taken = { kernel.setThread thread
        { ThreadSlot.zero with tid := kernel.nextTid, state := .ready } with
          nextTid := kernel.nextTid + 1 } := by
  unfold allocateThread at h
  split at h
  · simp at h
  next found hfound =>
  injection h with h
  injection h with hthread htaken
  subst hthread htaken
  have hunused := List.find?_some hfound
  simp only [ne_eq, decide_not, Bool.and_eq_true, Bool.not_eq_true', decide_eq_false_iff_not,
    beq_iff_eq] at hunused
  exact ⟨hunused.1, hunused.2, rfl⟩

end Kernel

/-! ## Frames at the top of a kernel stack -/

/-- `syscall_entry` pushes the registers in the order of `syscall_frame_t`. -/
def SyscallFrame.raw (frame : SyscallFrame) : Stack Word
  | 0 => frame.regs .rax
  | 1 => frame.regs .rbx
  | 2 => frame.regs .rcx
  | 3 => frame.regs .rdx
  | 4 => frame.regs .rsi
  | 5 => frame.regs .rdi
  | 6 => frame.regs .rbp
  | 7 => frame.regs .r8
  | 8 => frame.regs .r9
  | 9 => frame.regs .r10
  | 10 => frame.regs .r11
  | 11 => frame.regs .r12
  | 12 => frame.regs .r13
  | 13 => frame.regs .r14
  | 14 => frame.regs .r15
  | 15 => frame.iret.rip
  | 16 => frame.iret.cs
  | 17 => frame.iret.rflags
  | 18 => frame.iret.rsp
  | 19 => frame.iret.ss
  | _ => 0

/-- The frame of a `syscall` instruction: the CPU has put the return address
into RCX and the flags into R11. -/
def UserState.syscallFrame (user : UserState) : SyscallFrame where
  regs := Function.update (Function.update user.regs .rcx user.rip) .r11 user.rflags
  iret := user.iret

def userEntryFrame (entry stack : Word) : Stack Word :=
  SyscallFrame.wrapper
    { regs := fun _ => 0
      iret := { rip := entry, cs := USER_CS, rflags := 0x202, rsp := stack, ss := USER_SS } }

/-- `prepare_fork_frame_with_stack`; the fork itself passes no stack. -/
def forkFrame (parent : SyscallFrame) (childStack : Word) : Stack Word :=
  SyscallFrame.wrapper
    { regs := Function.update parent.regs .rax 0
      iret := { parent.iret with
        rsp := if childStack = 0 then parent.iret.rsp else childStack } }

/-! ## The first user process -/

/-- The kernel after `process_launch_user` on an image loaded at `root`. -/
def launched (root entry stack : Word) : Kernel where
  threads thread :=
    if thread = 0 then
      { ThreadSlot.zero with tid := 1, state := .running, owner := some kernelProcess }
    else if thread = bspIdleThread then
      { ThreadSlot.zero with tid := 2, state := .ready, owner := some kernelProcess }
    else if thread = 2 then
      { ThreadSlot.zero with
        tid := 3
        state := .running
        privilegeRing := 3
        owner := some 1
        context := { CpuContext.zero with
          rip := entry, rsp := stack, rflags := 0x202, cr3 := root }
        savedInterruptFrame := some (.stackTop 2)
        frame := userEntryFrame entry stack }
    else ThreadSlot.zero
  processes process :=
    if process = kernelProcess then
      { ProcessSlot.zero with pid := 1, threadCount := 1, alive := true, mainThread := some 0 }
    else if process = 1 then
      { ProcessSlot.zero with
        pid := 2
        threadCount := 1
        alive := true
        mainThread := some 2
        addressSpaceRoot := root }
    else ProcessSlot.zero
  futexWaiters _ :=
    { active := false, thread := 0, addressSpaceRoot := 0, userAddress := 0,
      deadline := 0, timed := false }
  current := 2
  nextPid := 3
  nextTid := 4
  timerTicks := 0
  reschedulePending := false
  inputWaiter := none
  inputQueued := 0
  mode := .user

end NPKernel
