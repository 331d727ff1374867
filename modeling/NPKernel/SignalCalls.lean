import NPKernel.ProcessLifecycle

/-!
# The signal calls

Sending signals, the calls that set masks and actions, and the two places
where the kernel enters a handler: the loop over pending signals and the
dispatch of an exception.
-/

namespace NPKernel

open RegisterStack

def NPK_SIGRTMIN : Word := 32
def NPK_SIGRTMAX : Word := 64
def SIG_BLOCK : Word := 0
def SIG_UNBLOCK : Word := 1
def SIG_SETMASK : Word := 2
def ARCH_SET_GS : Word := 0x1001
def ARCH_SET_FS : Word := 0x1002
def ARCH_GET_FS : Word := 0x1003
def ARCH_GET_GS : Word := 0x1004

namespace Kernel

/-! ## Sending -/

def signalTargetProcess (kernel : Kernel) (pid : ℤ) : Option ProcId :=
  if pid = 0 then kernel.processCurrent
  else if 0 < pid then kernel.findProcessByPid pid.toNat
  else none

def selectSignalThread (kernel : Kernel) (process : ProcId) (bit : Word) : Option ThreadId :=
  let candidate := fun thread =>
    (kernel.threads thread).owner == some process && (kernel.threads thread).state.live
  match threadIds.find? fun thread =>
      candidate thread && (kernel.threads thread).signalBlocked &&& bit == 0 with
  | some thread => some thread
  | none => threadIds.find? candidate

def queueSignalToThread (kernel : Kernel) (target : ThreadId) (signal : Word)
    (info : Option SignalInfo) : Word × Kernel :=
  let slot := kernel.threads target
  if signalBit signal = 0 then (-PROCESS_ESRCH, kernel)
  else
    match info.elim (some slot.toThread) (signalQueuePush slot.toThread) with
    | none => (-PROCESS_EAGAIN, kernel)
    | some pushed =>
      let pending := kernel.setThread target
        { slot with
          toThread := { pushed with
            signalPending := pushed.signalPending ||| signalBit signal } }
      (0,
        if pushed.futexWaiting ∧
            (signalUncatchable signal ∨ pushed.signalBlocked &&& signalBit signal = 0) then
          pending.futexCompleteThread target (-PROCESS_EINTR)
        else pending)

def processSendSignalInfo (kernel : Kernel) (pid : ℤ) (signal : Word)
    (info : Option SignalInfo) : Word × Kernel :=
  if NPK_SIGNAL_MAX < signal then (-PROCESS_EINVAL, kernel)
  else
    match kernel.signalTargetProcess pid with
    | none => (-PROCESS_ESRCH, kernel)
    | some target =>
      if !(kernel.processes target).alive then (-PROCESS_ESRCH, kernel)
      else if signal = 0 then (0, kernel)
      else
        match kernel.selectSignalThread target (signalBit signal) with
        | none => (-PROCESS_ESRCH, kernel)
        | some recipient => kernel.queueSignalToThread recipient signal info

def processSendThreadSignalInfo (kernel : Kernel) (tgid tid : ℤ) (signal : Word)
    (info : Option SignalInfo) : Word × Kernel :=
  if tgid ≤ 0 ∨ tid ≤ 0 ∨ NPK_SIGNAL_MAX < signal then (-PROCESS_EINVAL, kernel)
  else
    match kernel.findProcessByPid tgid.toNat with
    | none => (-PROCESS_ESRCH, kernel)
    | some process =>
      if !(kernel.processes process).alive then (-PROCESS_ESRCH, kernel)
      else
        match threadIds.find? fun thread =>
            (kernel.threads thread).tid == tid.toNat &&
              (kernel.threads thread).owner == some process &&
              (kernel.threads thread).state != .unused with
        | none => (-PROCESS_ESRCH, kernel)
        | some target =>
          if signal = 0 then (0, kernel)
          else kernel.queueSignalToThread target signal info

/-- The record that the two queueing calls build from the user's `siginfo_t`:
number, code and value are read, the sender is the caller. -/
def queuedSignalInfo (answers : Answers) (kernel : Kernel) (signal userInfo : Word) :
    Except Word SignalInfo :=
  if signal < NPK_SIGRTMIN ∨ NPK_SIGRTMAX < signal ∨ userInfo = 0 then .error (-PROCESS_EINVAL)
  else
    match (answers.access.vmmCopyin () userInfo 16).2 with
    | some (number :: code :: _ :: value :: _) =>
      if number.setWidth 32 ≠ signal.setWidth 32 then .error (-PROCESS_EINVAL)
      else
        match kernel.processCurrent with
        | none => .error (-PROCESS_ESRCH)
        | some sender =>
          if !(kernel.processes sender).alive then .error (-PROCESS_ESRCH)
          else
            .ok { signal := signal
                  code := (code.setWidth 32).signExtend 64
                  senderPid := BitVec.ofNat 64 (kernel.processes sender).pid
                  senderUid := 0
                  value := value }
    | _ => .error (-PROCESS_EFAULT)

def sysRtSigqueueinfo (answers : Answers) (kernel : Kernel) (pid : ℤ)
    (signal userInfo : Word) : Word × Kernel :=
  match kernel.queuedSignalInfo answers signal userInfo with
  | .error error => (error, kernel)
  | .ok info => kernel.processSendSignalInfo pid signal (some info)

def sysRtTgsigqueueinfo (answers : Answers) (kernel : Kernel) (tgid tid : ℤ)
    (signal userInfo : Word) : Word × Kernel :=
  match kernel.queuedSignalInfo answers signal userInfo with
  | .error error => (error, kernel)
  | .ok info => kernel.processSendThreadSignalInfo tgid tid signal (some info)

/-! ## Masks, actions and bases of the running thread -/

def setSignalMask (kernel : Kernel) (mask : Word) : Kernel :=
  kernel.setThread kernel.current
    { kernel.running with toThread := processSetSignalMask kernel.running.toThread mask }

def setSignalAction (kernel : Kernel) (process : ProcId) (signal : Word) (action : SigAction) :
    Kernel :=
  kernel.setProcess process
    { kernel.processes process with
      signalActions :=
        Function.update (kernel.processes process).signalActions signal.toNat action }

def copyinAction (answers : Answers) (userAction : Word) : Option SigAction :=
  match (answers.access.vmmCopyin () userAction 19).2 with
  | some (handler :: flags :: restorer :: mask :: _) =>
    some { handler := handler, flags := flags, restorer := restorer, mask := mask }
  | _ => none

def sysRtSigaction (answers : Answers) (kernel : Kernel)
    (signal userNewAction userOldAction sigsetSize : Word) : Word × Kernel :=
  match kernel.processCurrent with
  | none => (-PROCESS_EINVAL, kernel)
  | some process =>
    if !(kernel.processes process).alive ∨ signal = 0 ∨ NPK_SIGNAL_MAX < signal ∨
        signal = 9 ∨ signal = 19 then (-PROCESS_EINVAL, kernel)
    else if sigsetSize ≠ 0 ∧ sigsetSize ≠ 8 ∧ sigsetSize ≠ 128 then (-PROCESS_EINVAL, kernel)
    else if userOldAction ≠ 0 ∧ !answers.vmmCopyout userOldAction 152 then
      (-PROCESS_EFAULT, kernel)
    else if userNewAction = 0 then (0, kernel)
    else
      match copyinAction answers userNewAction with
      | none => (-PROCESS_EFAULT, kernel)
      | some action => (0, kernel.setSignalAction process signal action)

/-- The first word of a signal set of `sigsetSize` bytes. -/
def copyinMask (answers : Answers) (userSet sigsetSize : Word) : Option Word :=
  match (answers.access.vmmCopyin () userSet (sigsetSize.toNat / 8)).2 with
  | some (mask :: _) => some mask
  | _ => none

def sysRtSigprocmask (answers : Answers) (kernel : Kernel)
    (operation userSet userOldSet sigsetSize : Word) : Word × Kernel :=
  if sigsetSize ≠ 8 ∧ sigsetSize ≠ 128 then (-PROCESS_EINVAL, kernel)
  else if SIG_SETMASK < operation then (-PROCESS_EINVAL, kernel)
  else
    let oldMask := kernel.running.signalBlocked
    if userOldSet ≠ 0 ∧ !answers.vmmCopyout userOldSet sigsetSize.toNat then
      (-PROCESS_EFAULT, kernel)
    else if userSet = 0 then (0, kernel)
    else
      match copyinMask answers userSet sigsetSize with
      | none => (-PROCESS_EFAULT, kernel)
      | some mask =>
        (0, kernel.setSignalMask
          (if operation = SIG_BLOCK then oldMask ||| mask
            else if operation = SIG_UNBLOCK then oldMask &&& ~~~mask
            else mask))

/-- `sys_ppoll` up to its sleep: an error, or the mask to put back. -/
def sysPpoll (answers : Answers) (kernel : Kernel) (userSigmask sigsetSize : Word) :
    Except Word (Kernel × Option Word) :=
  if userSigmask = 0 then .ok (kernel, none)
  else if sigsetSize ≠ 8 ∧ sigsetSize ≠ 128 then .error (-PROCESS_EINVAL)
  else
    match copyinMask answers userSigmask sigsetSize with
    | none => .error (-PROCESS_EFAULT)
    | some mask => .ok (kernel.setSignalMask mask, some kernel.running.signalBlocked)

def sysPpollTail (kernel : Kernel) : Option Word → Kernel
  | none => kernel
  | some mask => kernel.setSignalMask mask

def validUserBase (base : Word) : Bool :=
  base ≤ 0x00007fffffffffff

def sysArchPrctl (answers : Answers) (kernel : Kernel) (operation argument : Word) :
    Word × Kernel :=
  match kernel.processCurrent with
  | none => (-PROCESS_EPERM, kernel)
  | some process =>
    if !(kernel.processes process).alive ∨ kernel.running.privilegeRing ≠ 3 then
      (-PROCESS_EPERM, kernel)
    else if operation = ARCH_SET_FS then
      if !validUserBase argument then (-PROCESS_EINVAL, kernel)
      else (0, kernel.setThread kernel.current { kernel.running with fsBase := argument })
    else if operation = ARCH_SET_GS then
      if !validUserBase argument then (-PROCESS_EINVAL, kernel)
      else (0, kernel.setThread kernel.current { kernel.running with gsBase := argument })
    else if operation = ARCH_GET_FS ∨ operation = ARCH_GET_GS then
      (if answers.vmmCopyout argument 8 then 0 else -PROCESS_EFAULT, kernel)
    else (-PROCESS_EINVAL, kernel)

/-! ## Entering and leaving handlers -/

def signalTask (kernel : Kernel) (process : ProcId) : SignalTask Unit where
  thread := kernel.running.toThread
  process := (kernel.processes process).toProcess
  memory := ()

def putThread (kernel : Kernel) (thread : Thread) : Kernel :=
  kernel.setThread kernel.current { kernel.running with toThread := thread }

/-- `process_terminate_by_signal` and `terminate_user_exception`, up to their
call of `scheduler_yield`. -/
def terminateBySignal (answers : Answers) (kernel : Kernel) (signal : Word) : Kernel :=
  let status := 128 + signal
  { processExitCurrent answers kernel (if 255 < status then 255 else status) with
    mode := .yielding .exit }

/-- `process_deliver_pending_common` on a frame: the kernel afterwards and the
frame, unless the process was terminated. -/
def deliverPendingSignal (answers : Answers) (kernel : Kernel) (frame : Stack Word) :
    Kernel × Option (Stack Word) :=
  match kernel.processCurrent with
  | none => (kernel, some frame)
  | some process =>
    match processDeliverPendingCommon answers.access (kernel.signalTask process) frame with
    | .none task => (kernel.putThread task.thread, some frame)
    | .delivered task frame => (kernel.putThread task.thread, some frame)
    | .terminated task signal =>
      (terminateBySignal answers (kernel.putThread task.thread) signal, none)

def sysRtSigreturn (answers : Answers) (kernel : Kernel) (frame : SyscallFrame) :
    Word × Kernel × SyscallFrame :=
  match kernel.processCurrent with
  | none => (-PROCESS_EINVAL, kernel, frame)
  | some process =>
    let returned := processSigreturn answers.access (kernel.signalTask process) frame
    (returned.1, kernel.putThread returned.2.1.thread, returned.2.2)

def raiseException (answers : Answers) (kernel : Kernel) (frame : Stack Word) (signal : Word) :
    Kernel :=
  match kernel.processCurrent with
  | none => terminateBySignal answers kernel signal
  | some process =>
    match processDeliverSignal answers.access (kernel.signalTask process) frame signal with
    | (true, task, _) => kernel.putThread task.thread
    | (false, _, _) => terminateBySignal answers kernel signal

end Kernel

end NPKernel
