import NPKernel.GuardedRuns
import NPKernel.Scheduler
import NPKernel.SyscallResult

/-!
# Runs of the kernel

One event is a syscall or an interrupt with everything the kernel does until
the CPU is back in user mode, waits for an interrupt or calls
`scheduler_yield`; the call of `scheduler_yield` is an event of its own.
-/

namespace NPKernel

open RegisterStack GuardedRuns

/-- The arguments of the calls that touch the tables, as `syscall_dispatch`
takes them from the registers. -/
inductive Syscall where
  | read
  | sleep
  | ppoll (userSigmask sigsetSize : Word)
  | schedYield
  | rtSigaction (signal userNewAction userOldAction sigsetSize : Word)
  | rtSigprocmask (operation userSet userOldSet sigsetSize : Word)
  | rtSigreturn
  | clone (flags childStack parentTid tls childTid : Word)
  | fork
  | execve
  | exit (status : Word)
  | exitGroup (status : Word)
  | wait4 (target : ℤ) (userStatus options : Word)
  | kill (pid : ℤ) (signal : Word)
  | rtSigqueueinfo (pid : ℤ) (signal userInfo : Word)
  | archPrctl (operation argument : Word)
  | futex (userAddress operation : Word) (value : BitVec 32) (userTimeout : Word)
  | setTidAddress (address : Word)
  | tgkill (tgid tid : ℤ) (signal : Word)
  | rtTgsigqueueinfo (tgid tid : ℤ) (signal userInfo : Word)
  | other
  deriving DecidableEq

/-- The cases of `syscall_dispatch`. -/
def SyscallFrame.syscall (frame : SyscallFrame) : Syscall :=
  let rdi := frame.regs .rdi
  let rsi := frame.regs .rsi
  let rdx := frame.regs .rdx
  let r10 := frame.regs .r10
  let r8 := frame.regs .r8
  match (frame.regs .rax).toNat with
  | 0 | 19 => .read
  | 7 | 35 | 232 => .sleep
  | 13 => .rtSigaction rdi rsi rdx r10
  | 14 => .rtSigprocmask rdi rsi rdx r10
  | 15 => .rtSigreturn
  | 24 => .schedYield
  | 56 => .clone rdi rsi rdx r10 r8
  | 57 => .fork
  | 59 => .execve
  | 60 => .exit rdi
  | 61 | 114 => .wait4 rdi.toInt rsi rdx
  | 62 => .kill rdi.toInt rsi
  | 129 => .rtSigqueueinfo rdi.toInt rsi rdx
  | 158 => .archPrctl rdi rsi
  | 202 => .futex rdi rsi (rdx.setWidth 32) r10
  | 218 => .setTidAddress rdi
  | 231 => .exitGroup rdi
  | 234 => .tgkill rdi.toInt rsi.toInt rdx
  | 271 => .ppoll r10 r8
  | 297 => .rtTgsigqueueinfo rdi.toInt rsi.toInt rdx r10
  | _ => .other

namespace Kernel

def sysFutex (answers : Answers) (kernel : Kernel) (userAddress operation : Word)
    (value : BitVec 32) (userTimeout : Word) : CallOutcome :=
  if hasBit operation 256 ∨ operation &&& ~~~(0x7f ||| 128) ≠ 0 then
    .returned (-PROCESS_EINVAL) kernel
  else if operation &&& 0x7f = 0 then
    match processFutexWait answers kernel userAddress value userTimeout with
    | .error error => .returned error kernel
    | .ok blocked => .blocked blocked
  else if operation &&& 0x7f = 1 then
    let woken := kernel.processFutexWake userAddress value.toNat
    .returned woken.1 woken.2
  else .returned (-PROCESS_ENOSYS) kernel

def returnDelivering (answers : Answers) (result : Word) (kernel : Kernel)
    (frame : SyscallFrame) : CallOutcome :=
  match deliverPendingSignal answers kernel frame.wrapper with
  | (delivered, some _) => .returned result delivered
  | (terminated, none) => .blocked terminated

/-- The calls that look for pending signals when they return zero. -/
def returnSignalCall (answers : Answers) (call : Word × Kernel) (frame : SyscallFrame) :
    CallOutcome :=
  if call.1 = 0 then returnDelivering answers call.1 call.2 frame
  else .returned call.1 call.2

def syscallDispatch (answers : Answers) (kernel : Kernel) (frame : SyscallFrame) : CallOutcome :=
  match frame.syscall with
  | .read =>
    if answers.readsTerminal then .blocked { kernel with mode := .terminal }
    else .returned answers.otherResult kernel
  | .sleep =>
    if answers.sleeps then .blocked { kernel with mode := .sleeping none }
    else .returned answers.otherResult kernel
  | .ppoll userSigmask sigsetSize =>
    match kernel.sysPpoll answers userSigmask sigsetSize with
    | .error error => .returned error kernel
    | .ok (masked, mask) =>
      if answers.sleeps then .blocked { masked with mode := .sleeping mask }
      else .returned answers.otherResult (masked.sysPpollTail mask)
  | .schedYield => .blocked { kernel with mode := .yielding .schedYield }
  | .rtSigaction signal userNewAction userOldAction sigsetSize =>
    let call := kernel.sysRtSigaction answers signal userNewAction userOldAction sigsetSize
    .returned call.1 call.2
  | .rtSigprocmask operation userSet userOldSet sigsetSize =>
    returnSignalCall answers
      (kernel.sysRtSigprocmask answers operation userSet userOldSet sigsetSize) frame
  | .rtSigreturn =>
    let call := kernel.sysRtSigreturn answers frame
    if call.2.1.running.signalInflight then .returned call.1 call.2.1
    else returnDelivering answers call.1 call.2.1 call.2.2
  | .clone flags childStack parentTid tls childTid =>
    let call := kernel.processClone answers flags childStack parentTid tls childTid frame
    .returned call.1 call.2
  | .fork =>
    let call := kernel.processFork answers frame
    .returned call.1 call.2
  | .execve =>
    let call := kernel.processExecCurrent answers
    .returned call.1 call.2
  | .exit status =>
    .blocked { processExitThreadCurrent answers kernel status with mode := .yielding .exit }
  | .exitGroup status =>
    .blocked { processExitCurrent answers kernel status with mode := .yielding .exit }
  | .wait4 target userStatus options => kernel.processWait4 answers target userStatus options
  | .kill pid signal =>
    returnSignalCall answers (kernel.processSendSignalInfo pid signal none) frame
  | .rtSigqueueinfo pid signal userInfo =>
    returnSignalCall answers (kernel.sysRtSigqueueinfo answers pid signal userInfo) frame
  | .archPrctl operation argument =>
    let call := kernel.sysArchPrctl answers operation argument
    .returned call.1 call.2
  | .futex userAddress operation value userTimeout =>
    kernel.sysFutex answers userAddress operation value userTimeout
  | .setTidAddress address =>
    let call := kernel.processSetTidAddress address
    .returned call.1 call.2
  | .tgkill tgid tid signal =>
    returnSignalCall answers (kernel.processSendThreadSignalInfo tgid tid signal none) frame
  | .rtTgsigqueueinfo tgid tid signal userInfo =>
    returnSignalCall answers (kernel.sysRtTgsigqueueinfo answers tgid tid signal userInfo) frame
  | .other => .returned answers.otherResult kernel

def enterSyscall (kernel : Kernel) (frame : SyscallFrame) : Kernel :=
  (kernel.setThread kernel.current
    { kernel.running with
      savedInterruptFrame := some (.stackTop kernel.current)
      savedFrameKind := .syscall
      frame := frame.raw }).processReapPending

end Kernel

def CallOutcome.kernel : CallOutcome → Kernel
  | .returned _ kernel => kernel
  | .blocked kernel => kernel

inductive Event where
  | syscall (user : UserState) (answers : Answers)
  | exception (words : Stack Word) (vector : Word) (answers : Answers)
  | timer (user : UserState) (answers : Answers)
  | kernelTick
  | key
  | getchar (more : Bool)
  | wake
  | yield (answers : Answers)

namespace Kernel

def step (kernel : Kernel) : Event → Option Kernel
  | .syscall user answers =>
    if kernel.mode = .user then
      some (syscallDispatch answers (kernel.enterSyscall user.syscallFrame)
        user.syscallFrame).kernel
    else none
  | .exception words vector answers =>
    if kernel.mode = .user then
      some (kernel.raiseException answers words (exceptionSignal vector))
    else none
  | .timer user answers =>
    if kernel.mode = .user then
      some ({ kernel with timerTicks := kernel.timerTicks + 1 }.schedulerPreempt answers user)
    else none
  | .kernelTick =>
    match kernel.mode with
    | .idle | .sleeping _ => some kernel.kernelTick
    | _ => none
  | .key =>
    match kernel.mode with
    | .user | .idle | .sleeping _ => some kernel.enqueueByte
    | _ => none
  | .getchar more => if kernel.mode = .terminal then some (kernel.keyboardGetchar more) else none
  | .wake =>
    match kernel.mode with
    | .sleeping mask => some { kernel.sysPpollTail mask with mode := .user }
    | _ => none
  | .yield answers =>
    match kernel.mode with
    | .yielding site => some (kernel.schedulerYield answers site)
    | _ => none

/-- The events, each in the modes in which it happens. -/
inductive Stepped (kernel : Kernel) : Event → Kernel → Prop
  | syscall {user : UserState} {answers : Answers} (hmode : kernel.mode = .user) :
      Stepped kernel (.syscall user answers) (syscallDispatch answers
        (kernel.enterSyscall user.syscallFrame) user.syscallFrame).kernel
  | exception {words : Stack Word} {vector : Word} {answers : Answers}
      (hmode : kernel.mode = .user) : Stepped kernel (.exception words vector answers)
        (kernel.raiseException answers words (exceptionSignal vector))
  | timer {user : UserState} {answers : Answers} (hmode : kernel.mode = .user) :
      Stepped kernel (.timer user answers)
        ({ kernel with timerTicks := kernel.timerTicks + 1 }.schedulerPreempt answers user)
  | kernelTick (hmode : kernel.mode = .idle ∨ ∃ mask, kernel.mode = .sleeping mask) :
      Stepped kernel .kernelTick kernel.kernelTick
  | key (hmode : kernel.mode = .user ∨ kernel.mode = .idle ∨
      ∃ mask, kernel.mode = .sleeping mask) : Stepped kernel .key kernel.enqueueByte
  | getchar {more : Bool} (hmode : kernel.mode = .terminal) :
      Stepped kernel (.getchar more) (kernel.keyboardGetchar more)
  | wake {mask : Option Word} (hmode : kernel.mode = .sleeping mask) :
      Stepped kernel .wake { kernel.sysPpollTail mask with mode := .user }
  | yield {answers : Answers} {site : YieldSite} (hmode : kernel.mode = .yielding site) :
      Stepped kernel (.yield answers) (kernel.schedulerYield answers site)

theorem step_stepped {kernel next : Kernel} {event : Event} (h : kernel.step event = some next) :
    Stepped kernel event next := by
  unfold step at h
  split at h <;> split at h <;> cases h
  · exact .syscall (by assumption)
  · exact .exception (by assumption)
  · exact .timer (by assumption)
  · exact .kernelTick (.inl (by assumption))
  · exact .kernelTick (.inr ⟨_, by assumption⟩)
  · exact .key (.inl (by assumption))
  · exact .key (.inr (.inl (by assumption)))
  · exact .key (.inr (.inr ⟨_, by assumption⟩))
  · exact .getchar (by assumption)
  · exact .wake (by assumption)
  · exact .yield (by assumption)

end Kernel

/-! ## Concrete runs -/

/-- User memory that takes every store and reads as the given words, and
allocators that do not fail. -/
def willing (words : List Word) : Answers where
  access :=
    { copyoutProcess := fun _ _ _ => ((), true)
      vmmCopyin := fun _ _ count => ((), some ((words ++ List.replicate count 0).take count)) }
  vmmCopyout _ _ := true
  copyin32 _ := some 0
  copyoutProcess32 _ _ _ := true
  vmEnsureUserPage _ _ := true
  vmmCloneUserSpace := 0x5000
  retainFds := true
  vmCloneMetadata := true
  kernelStack := true
  stageExecImage :=
    some { addressSpaceRoot := 0x9000, entry := 0x400000, initialStack := 0x7ffff000 }
  readsTerminal := true
  sleeps := true
  otherResult := 0

def UserState.calling (number : Word) (arguments : List Word) : UserState where
  regs
    | .rax => number
    | .rdi => arguments.getD 0 0
    | .rsi => arguments.getD 1 0
    | .rdx => arguments.getD 2 0
    | .r10 => arguments.getD 3 0
    | .r8 => arguments.getD 4 0
    | .r9 => arguments.getD 5 0
    | _ => 0
  rip := 0x400100
  rflags := 0x202
  rsp := 0x7fffe000

def Event.call (number : Word) (arguments : List Word) (answers : Answers := willing []) : Event :=
  .syscall (.calling number arguments) answers

abbrev sampleKernel : Kernel := launched 0x1000 0x400000 0x7ffff000

/-- The first thread makes a second one and waits on a futex, and the second runs. -/
def futexWaitingRun : List Event :=
  [.call 56 [0x10f00, 0x7fff0000, 0, 0, 0], .call 202 [0x6000, 0, 0, 0], .yield (willing [])]

end NPKernel
