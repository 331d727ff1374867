import NPKernel.SignalReturn

/-!
# The result of a syscall whose exit delivers a signal

`syscall_dispatch` returns a call's value as a C result, while the frame it
was given still holds the registers of the entry.  Seven kinds of call look
for pending signals on their way out; the delivery then saves this frame, with
the call's number in RAX.  Only `rt_sigreturn` has put its value into the
frame by that time.
-/

namespace NPKernel

open RegisterStack GuardedRuns

def NPK_SYS_RT_SIGPROCMASK : Word := 14
def NPK_SYS_RT_SIGRETURN : Word := 15
def NPK_SYS_EXECVE : Word := 59
def NPK_SYS_KILL : Word := 62
def NPK_SYS_RT_SIGQUEUEINFO : Word := 129
def NPK_SYS_FUTEX : Word := 202
def NPK_SYS_TGKILL : Word := 234
def NPK_SYS_RT_TGSIGQUEUEINFO : Word := 297

/-- The bodies of the syscalls, by number, on the running task; `none` for a
call that does not return.  Only `execve` and `rt_sigreturn` are handed the
frame to write to. -/
structure SyscallTable (μ : Type) where
  call : Word → SignalTask μ → SyscallFrame → Option (Word × SignalTask μ)
  execve : SignalTask μ → SyscallFrame → Word × SignalTask μ × SyscallFrame

structure CompletedCall (μ : Type) where
  result : Word
  task : SignalTask μ
  frame : SyscallFrame

/-- The calls that end with `process_deliver_pending_signal_syscall` when they
return zero. -/
def signalCalls : List Word :=
  [NPK_SYS_RT_SIGQUEUEINFO, NPK_SYS_RT_TGSIGQUEUEINFO, NPK_SYS_RT_SIGPROCMASK,
    NPK_SYS_KILL, NPK_SYS_TGKILL]

section Dispatch

variable {μ : Type} (access : UserAccess μ) (table : SyscallTable μ)

/-- `syscall_dispatch` up to the delivery of pending signals. -/
def completeCall (task : SignalTask μ) (frame : SyscallFrame) : Option (CompletedCall μ) :=
  if frame.regs .rax = NPK_SYS_RT_SIGRETURN then
    let returned := processSigreturn access task frame
    some { result := returned.1, task := returned.2.1, frame := returned.2.2 }
  else if frame.regs .rax = NPK_SYS_EXECVE then
    let started := table.execve task frame
    some { result := started.1, task := started.2.1, frame := started.2.2 }
  else
    (table.call (frame.regs .rax) task frame).map fun completed =>
      { result := completed.1, task := completed.2, frame := frame }

def deliversOnExit (number : Word) (call : CompletedCall μ) : Bool :=
  if number = NPK_SYS_RT_SIGRETURN then !call.task.thread.signalInflight
  else if number = NPK_SYS_FUTEX then call.result == -PROCESS_EINTR
  else decide (number ∈ signalCalls) && call.result == 0

variable {access table}

/-- The frame that the delivery saves has the call's value in RAX only after an
accepted `rt_sigreturn`. -/
theorem completeCall_rax_iff {task : SignalTask μ} {frame : SyscallFrame}
    {call : CompletedCall μ} (hcall : completeCall access table task frame = some call)
    (hexit : deliversOnExit (frame.regs .rax) call = true) :
    call.frame.regs .rax = call.result ↔
      frame.regs .rax = NPK_SYS_RT_SIGRETURN ∧ SigreturnAccepted access task frame := by
  unfold completeCall at hcall
  split at hcall
  next hnumber =>
    cases hcall
    by_cases haccepted : SigreturnAccepted access task frame
    · simp [processSigreturn_accepted access haccepted, hnumber, haccepted]
    · obtain ⟨memory, heq⟩ := processSigreturn_rejected access haccepted
      simp only [heq, hnumber, haccepted, and_false, iff_false]
      decide
  next hnumber =>
  have hsignal : frame.regs .rax = NPK_SYS_FUTEX ∧ call.result = -PROCESS_EINTR ∨
      frame.regs .rax ∈ signalCalls ∧ call.result = 0 := by
    unfold deliversOnExit at hexit
    rw [if_neg hnumber] at hexit
    split at hexit
    next hfutex => exact .inl ⟨hfutex, by simpa using hexit⟩
    · exact .inr (by simpa using hexit)
  split at hcall
  next hexec =>
    rw [hexec] at hsignal
    exact absurd hsignal (by simp [signalCalls, NPK_SYS_EXECVE, NPK_SYS_FUTEX,
      NPK_SYS_RT_SIGQUEUEINFO, NPK_SYS_RT_TGSIGQUEUEINFO, NPK_SYS_RT_SIGPROCMASK,
      NPK_SYS_KILL, NPK_SYS_TGKILL])
  · simp only [Option.map_eq_some_iff] at hcall
    obtain ⟨completed, -, rfl⟩ := hcall
    simp only [hnumber, false_and, iff_false]
    dsimp only at hsignal ⊢
    rcases hsignal with ⟨hfutex, hresult⟩ | ⟨hmem, hresult⟩
    · rw [hfutex, hresult]
      decide
    · rw [hresult]
      intro hzero
      rw [hzero] at hmem
      revert hmem
      decide

/-- When the exit of a completed call delivers a signal, the handler's return
continues after the call with the call's value in RAX exactly if the call was
an accepted `rt_sigreturn`. -/
theorem syscall_result_kept_iff {task : SignalTask μ} {frame : SyscallFrame}
    {call : CompletedCall μ} {entered last : SignalTask μ} {words : Stack Word}
    {actions : List (ThreadAction μ)} {ret : SyscallFrame}
    (hcall : completeCall access table task frame = some call)
    (hexit : deliversOnExit (frame.regs .rax) call = true)
    (hdelivered : processDeliverPendingSignalSyscall access call.task call.frame =
      .delivered entered words)
    (hguard : Guarded (SignalTask.step access) (HandlerAction access) entered actions)
    (hrun : run (SignalTask.step access) entered actions = some last)
    (haccepted : SigreturnAccepted access last ret) :
    ((processSigreturn access last ret).1 = call.result ∧
        (processSigreturn access last ret).2.2.iret.rip = call.frame.iret.rip) ↔
      frame.regs .rax = NPK_SYS_RT_SIGRETURN ∧ SigreturnAccepted access task frame := by
  obtain ⟨start, signal, info, hdeliver, -, -⟩ :=
    processDeliverPendingCommon_delivered access hdelivered
  have hentered := inHandler_of_delivered access
    (show (processDeliverSignalWithInfo access start call.frame.wrapper signal info).1 =
      true by rw [hdeliver])
  rw [hdeliver] at hentered
  have hlast := hentered.afterRun access hguard hrun
  have hwords := (hlast.sigreturn_restores access haccepted).1
  have hrip : (processSigreturn access last ret).2.2.iret.rip = call.frame.iret.rip :=
    hwords 15
  have hrax : (processSigreturn access last ret).1 = call.frame.regs .rax := by
    have hvalue : (processSigreturn access last ret).1 =
        (processSigreturn access last ret).2.2.regs .rax := by
      rw [processSigreturn_accepted access haccepted]
    exact hvalue.trans (hwords 14)
  rw [hrax, ← completeCall_rax_iff hcall hexit]
  exact ⟨fun h => h.1, fun h => ⟨h, hrip⟩⟩

end Dispatch

/-- A thread in the handler of signal 11 with signal 12 pending. -/
def secondSignalTask : SignalTask (Word → Word) :=
  let entered := (processDeliverSignalWithInfo flatAccess sampleTask sampleFrame 11 none).2.1
  { entered with thread := (queueSignalToThread entered.thread 12 none).2 }

def sigreturnFrame : SyscallFrame :=
  { sampleReturn with regs := fun _ => NPK_SYS_RT_SIGRETURN }

/-- The return from the first handler delivers the second signal and keeps its
value across that handler. -/
theorem syscall_result_kept_sigreturn :
    ∃ call entered words,
      completeCall flatAccess ⟨fun _ _ _ => none, fun task frame => (0, task, frame)⟩
        secondSignalTask sigreturnFrame = some call ∧
      processDeliverPendingSignalSyscall flatAccess call.task call.frame =
        .delivered entered words ∧
      (processSigreturn flatAccess entered sampleReturn).1 = call.result ∧
      (processSigreturn flatAccess entered sampleReturn).2.2.iret.rip = call.frame.iret.rip := by
  refine ⟨_, _, _, rfl, rfl, ?_⟩
  have haccepted : SigreturnAccepted flatAccess secondSignalTask sigreturnFrame :=
    ⟨rfl, _, rfl, rfl⟩
  exact (@syscall_result_kept_iff _ flatAccess
    ⟨fun _ _ _ => none, fun task frame => (0, task, frame)⟩ secondSignalTask
    sigreturnFrame _ _ _ _ [] sampleReturn rfl rfl rfl trivial rfl
    ⟨rfl, _, rfl, rfl⟩).mpr ⟨rfl, haccepted⟩

/-! ## A process that sends itself a signal -/

/-- `process_send_signal` with pid zero in a process with one thread. -/
def sendSignalToSelf {μ : Type} (task : SignalTask μ) (signal : Word) :
    Word × SignalTask μ :=
  if NPK_SIGNAL_MAX < signal then (-PROCESS_EINVAL, task)
  else if !task.process.alive then (-PROCESS_ESRCH, task)
  else if signal = 0 then (0, task)
  else
    let queued := queueSignalToThread task.thread signal none
    (queued.1, { task with thread := queued.2 })

def singleThreadCalls (μ : Type) : SyscallTable μ where
  call number task frame :=
    if number = NPK_SYS_KILL then some (sendSignalToSelf task (frame.regs .rsi)) else none
  execve task frame := (-PROCESS_EINVAL, task, frame)

def killFrame : SyscallFrame where
  regs
    | .rax => NPK_SYS_KILL
    | .rsi => 12
    | _ => 0
  iret :=
    { rip := 0x400123, cs := USER_CS, rflags := 0x202, rsp := 0x7fff0000, ss := USER_SS }

/-- `kill` succeeds with value zero, and after the handler's return RAX holds
the number of the call instead. -/
theorem kill_result_lost :
    ∃ call entered words,
      completeCall flatAccess (singleThreadCalls _) sampleTask killFrame = some call ∧
      call.result = 0 ∧
      deliversOnExit (killFrame.regs .rax) call = true ∧
      processDeliverPendingSignalSyscall flatAccess call.task call.frame =
        .delivered entered words ∧
      SigreturnAccepted flatAccess entered sampleReturn ∧
      (processSigreturn flatAccess entered sampleReturn).1 = NPK_SYS_KILL := by
  refine ⟨_, _, _, rfl, rfl, rfl, rfl, ⟨rfl, _, rfl, rfl⟩, rfl⟩

end NPKernel
