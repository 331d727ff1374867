import NPKernel.ProcessTable

/-!
# Signal delivery and return

`process_deliver_signal_with_info`, `process_sigreturn` and the pending-signal
loop of `src/proc/process.c`, acting on the running thread, its process and
the user memory of that process.  User memory is reached only through
`copyout_process` and `vmm_copyin`; both are parameters here, and every result
below holds whatever they do.
-/

namespace NPKernel

open RegisterStack

def PROCESS_EINVAL : Word := 22
def PROCESS_ESRCH : Word := 3
def PROCESS_EAGAIN : Word := 11
def PROCESS_EINTR : Word := 4
def NPK_SA_SIGINFO : Word := 0x4
def NPK_SIGNAL_FRAME_MAGIC : Word := 0x4e504b5349474652

/-- Access to the user memory `μ` of one process, eight bytes at a time. -/
structure UserAccess (μ : Type) where
  copyoutProcess : μ → Word → List Word → μ × Bool
  vmmCopyin : μ → Word → ℕ → μ × Option (List Word)

/-- The running thread, its process and its user memory. -/
structure SignalTask (μ : Type) where
  thread : Thread
  process : Process
  memory : μ

def signalBit (signal : Word) : Word :=
  if 1 ≤ signal ∧ signal ≤ 64 then (1 : Word) <<< (signal - 1) else 0

def signalUncatchable (signal : Word) : Bool :=
  signal == 9 || signal == 19

def signalActionHandlerValid (action : SigAction) : Bool :=
  !(action.handler == 0 || action.handler == 1) &&
    vmmIsUserRange action.handler 1 &&
    !(action.restorer == 0 || !vmmIsUserRange action.restorer 1)

/-! ## The per-thread queue of signals with information -/

def signalQueuePush (thread : Thread) (info : SignalInfo) : Option Thread :=
  if NPK_SIGNAL_QUEUE_MAX ≤ thread.signalQueueCount then none
  else some { thread with
    signalQueue := Function.update thread.signalQueue thread.signalQueueTail info
    signalQueueTail := (thread.signalQueueTail + 1) % NPK_SIGNAL_QUEUE_MAX
    signalQueueCount := thread.signalQueueCount + 1 }

def signalQueueIndex (thread : Thread) (i : ℕ) : ℕ :=
  (thread.signalQueueHead + i) % NPK_SIGNAL_QUEUE_MAX

def signalQueueContains (thread : Thread) (signal : Word) : Bool :=
  (List.range thread.signalQueueCount).any fun i =>
    (thread.signalQueue (signalQueueIndex thread i)).signal == signal

/-- The shift loop of `signal_queue_pop`, one slot per index of the list. -/
def signalQueueShift (thread : Thread) : List ℕ → (ℕ → SignalInfo) → ℕ → SignalInfo
  | [], queue => queue
  | i :: indices, queue =>
    signalQueueShift thread indices
      (Function.update queue (signalQueueIndex thread i) (queue (signalQueueIndex thread (i + 1))))

def signalQueuePop (thread : Thread) (signal : Word) : Thread × Option SignalInfo :=
  match (List.range thread.signalQueueCount).find? fun i =>
      (thread.signalQueue (signalQueueIndex thread i)).signal == signal with
  | none => (thread, none)
  | some found =>
    let count := thread.signalQueueCount - 1
    ({ thread with
      signalQueue := signalQueueShift thread
        (List.range' found (count - found)) thread.signalQueue
      signalQueueCount := count
      signalQueueTail := (thread.signalQueueHead + count) % NPK_SIGNAL_QUEUE_MAX },
      some (thread.signalQueue (signalQueueIndex thread found)))

/-! ## Entering a handler -/

/-- `siginfo_t` as sixteen words: number, code, sender and value. -/
def rawSiginfo (signal : Word) (info : SignalInfo) : List Word :=
  [signal &&& 0xffffffff, info.code &&& 0xffffffff,
    (info.senderPid &&& 0xffffffff) ||| (info.senderUid.setWidth 64 <<< 32),
    info.value] ++ List.replicate 12 0

def rawUcontext : List Word := List.replicate 32 0

def useSiginfo (action : SigAction) (info : Option SignalInfo) : Bool :=
  info.isSome && action.flags &&& NPK_SA_SIGINFO != 0

def signalFrameSize (siginfo : Bool) : Word :=
  8 + 32 + (if siginfo then 128 + 256 else 0)

def signalFrameAddress (rsp : Word) (siginfo : Bool) : Word :=
  (rsp - signalFrameSize siginfo) &&& ~~~0xf

def signalFrameFits (rsp : Word) (siginfo : Bool) : Bool :=
  !(rsp < signalFrameSize siginfo ||
    rsp - signalFrameSize siginfo < NPK_USER_MIN) &&
    vmmIsUserRange (signalFrameAddress rsp siginfo) (signalFrameSize siginfo)

def siginfoAddress (frameUser : Word) (siginfo : Bool) : Word :=
  if siginfo then frameUser + 8 + 32 else 0

def ucontextAddress (frameUser : Word) (siginfo : Bool) : Word :=
  if siginfo then frameUser + 8 + 32 + 128 else 0

def signalHeader (frameUser signal : Word) (siginfo : Bool) : List Word :=
  [NPK_SIGNAL_FRAME_MAGIC, signal, siginfoAddress frameUser siginfo,
    ucontextAddress frameUser siginfo]

section Delivery

variable {μ : Type} (access : UserAccess μ)

def copyoutAll (memory : μ) : List (Word × List Word) → μ × Bool
  | [] => (memory, true)
  | (address, words) :: rest =>
    match access.copyoutProcess memory address words with
    | (memory, true) => copyoutAll memory rest
    | (memory, false) => (memory, false)

def signalFrameCopies (action : SigAction) (frameUser signal : Word)
    (info : Option SignalInfo) : List (Word × List Word) :=
  let siginfo := useSiginfo action info
  [(frameUser, [action.restorer]), (frameUser + 8, signalHeader frameUser signal siginfo)] ++
  match siginfo, info with
  | true, some info =>
    [(siginfoAddress frameUser true, rawSiginfo signal info),
      (ucontextAddress frameUser true, rawUcontext)]
  | _, _ => []

def enterHandlerThread (thread : Thread) (frame : Stack Word) (action : SigAction)
    (frameUser signal : Word) : Thread :=
  { thread with
    signalSavedFrame := fun i => frame i
    signalSavedMask := thread.signalBlocked
    signalInflight := true
    signalFrameUser := frameUser
    signalRestorer := action.restorer
    signalNumber := signal
    signalBlocked := thread.signalBlocked ||| (signalBit signal ||| action.mask) }

def enterHandlerFrame (frame : Stack Word) (action : SigAction)
    (frameUser signal : Word) (siginfo : Bool) : Stack Word
  | 9 => signal
  | 10 => siginfoAddress frameUser siginfo
  | 11 => ucontextAddress frameUser siginfo
  | 15 => action.handler
  | 16 => USER_CS
  | 17 => frame 17 ||| 0x200
  | 18 => frameUser
  | 19 => USER_SS
  | i => frame i

/-- The checks of `process_deliver_signal_with_info` before the action is
looked at. -/
def deliveryAllowed (task : SignalTask μ) (signal : Word) : Bool :=
  !(!task.process.alive || task.thread.privilegeRing != 3 || signal == 0 ||
    NPK_SIGNAL_MAX < signal || task.thread.signalInflight)

def processDeliverSignalWithInfo (task : SignalTask μ) (frame : Stack Word)
    (signal : Word) (info : Option SignalInfo) : Bool × SignalTask μ × Stack Word :=
  if !deliveryAllowed task signal then (false, task, frame)
  else
    let action := task.process.signalActions signal.toNat
    if !signalActionHandlerValid action then (false, task, frame)
    else
      let siginfo := useSiginfo action info
      if !signalFrameFits (frame 18) siginfo then (false, task, frame)
      else
        let frameUser := signalFrameAddress (frame 18) siginfo
        match copyoutAll access task.memory (signalFrameCopies action frameUser signal info) with
        | (memory, false) => (false, { task with memory := memory }, frame)
        | (memory, true) =>
          (true,
            { task with
              thread := enterHandlerThread task.thread frame action frameUser signal
              memory := memory },
            enterHandlerFrame frame action frameUser signal siginfo)

def processDeliverSignal (task : SignalTask μ) (frame : Stack Word)
    (signal : Word) : Bool × SignalTask μ × Stack Word :=
  processDeliverSignalWithInfo access task frame signal none

/-- A delivery either changes nothing but user memory, or it passed every check
and enters the handler. -/
theorem processDeliverSignalWithInfo_cases (task : SignalTask μ)
    (frame : Stack Word) (signal : Word) (info : Option SignalInfo) :
    (∃ memory, processDeliverSignalWithInfo access task frame signal info =
      (false, { task with memory := memory }, frame)) ∨
    (∃ memory,
      let action := task.process.signalActions signal.toNat
      let siginfo := useSiginfo action info
      let frameUser := signalFrameAddress (frame 18) siginfo
      deliveryAllowed task signal ∧
      signalActionHandlerValid action ∧
      signalFrameFits (frame 18) siginfo ∧
      processDeliverSignalWithInfo access task frame signal info =
        (true,
          { task with
            thread := enterHandlerThread task.thread frame action frameUser signal
            memory := memory },
          enterHandlerFrame frame action frameUser signal siginfo)) := by
  fun_cases processDeliverSignalWithInfo access task frame signal info with
  | case4 => exact .inl ⟨_, rfl⟩
  | case5 hallowed _ hvalid _ hfits _ memory =>
    refine .inr ⟨memory, ?_, ?_, ?_, rfl⟩
    · simpa using hallowed
    · simpa using hvalid
    · simpa using hfits
  | _ => exact .inl ⟨task.memory, rfl⟩

theorem processDeliverSignalWithInfo_of_checks {task : SignalTask μ}
    {frame : Stack Word} {signal : Word} {info : Option SignalInfo}
    (hallowed : deliveryAllowed task signal)
    (hvalid : signalActionHandlerValid (task.process.signalActions signal.toNat))
    (hfits : signalFrameFits (frame 18) (useSiginfo (task.process.signalActions signal.toNat) info))
    (hcopied : (copyoutAll access task.memory
      (signalFrameCopies (task.process.signalActions signal.toNat)
        (signalFrameAddress (frame 18) (useSiginfo (task.process.signalActions signal.toNat) info))
        signal info)).2 = true) :
    (processDeliverSignalWithInfo access task frame signal info).1 = true := by
  unfold processDeliverSignalWithInfo
  simp only [hallowed, hvalid, hfits, Bool.not_true, Bool.false_eq_true, if_false]
  split
  next memory heq =>
    rw [heq] at hcopied
    simp at hcopied
  · rfl

end Delivery

/-! ## Returning from a handler -/

/-- The wrapper built by `process_deliver_pending_signal_syscall`. -/
def SyscallFrame.wrapper (frame : SyscallFrame) : Stack Word
  | 0 => frame.regs .r15
  | 1 => frame.regs .r14
  | 2 => frame.regs .r13
  | 3 => frame.regs .r12
  | 4 => frame.regs .r11
  | 5 => frame.regs .r10
  | 6 => frame.regs .r9
  | 7 => frame.regs .r8
  | 8 => frame.regs .rbp
  | 9 => frame.regs .rdi
  | 10 => frame.regs .rsi
  | 11 => frame.regs .rdx
  | 12 => frame.regs .rcx
  | 13 => frame.regs .rbx
  | 14 => frame.regs .rax
  | 15 => frame.iret.rip
  | 16 => frame.iret.cs
  | 17 => frame.iret.rflags
  | 18 => frame.iret.rsp
  | 19 => frame.iret.ss
  | _ => 0

/-- The reverse copy, used by `process_sigreturn` as well. -/
def SyscallFrame.ofWrapper (words : Stack Word) : SyscallFrame where
  regs
    | .r15 => words 0
    | .r14 => words 1
    | .r13 => words 2
    | .r12 => words 3
    | .r11 => words 4
    | .r10 => words 5
    | .r9 => words 6
    | .r8 => words 7
    | .rbp => words 8
    | .rdi => words 9
    | .rsi => words 10
    | .rdx => words 11
    | .rcx => words 12
    | .rbx => words 13
    | .rax => words 14
  iret :=
    { rip := words 15, cs := words 16, rflags := words 17,
      rsp := words 18, ss := words 19 }

theorem SyscallFrame.wrapper_ofWrapper (words : Stack Word) (i : Fin 20) :
    (SyscallFrame.ofWrapper words).wrapper i = words i := by
  fin_cases i <;> rfl

def Thread.savedFrame (thread : Thread) : Stack Word :=
  fun i => if h : i < 20 then thread.signalSavedFrame ⟨i, h⟩ else 0

theorem Thread.savedFrame_fin (thread : Thread) (i : Fin 20) :
    thread.savedFrame i = thread.signalSavedFrame i := by
  simp [Thread.savedFrame]

def leaveHandlerThread (thread : Thread) : Thread :=
  { thread with
    signalBlocked := thread.signalSavedMask
    signalSavedMask := 0
    signalInflight := false
    signalFrameUser := 0
    signalRestorer := 0
    signalNumber := 0
    signalSavedFrame := fun _ => 0 }

/-- The stack pointer and the address of the call are where the restorer's
`rt_sigreturn` puts them. -/
def sigreturnWindow (thread : Thread) (frame : SyscallFrame) : Bool :=
  thread.signalInflight && frame.iret.rsp == thread.signalFrameUser + 8 &&
    vmmIsUserRange frame.iret.rip 1

/-- The header read back from user memory is the one that was written, and the
call lies at most 32 bytes after the restorer. -/
def sigreturnHeaderValid (thread : Thread) (frame : SyscallFrame) : List Word → Bool
  | [magic, signal, _, _] =>
    magic == NPK_SIGNAL_FRAME_MAGIC && signal == thread.signalNumber &&
      !(frame.iret.rip < thread.signalRestorer || 32 < frame.iret.rip - thread.signalRestorer)
  | _ => false

section Return

variable {μ : Type} (access : UserAccess μ)

def processSigreturn (task : SignalTask μ) (frame : SyscallFrame) :
    Word × SignalTask μ × SyscallFrame :=
  if !sigreturnWindow task.thread frame then (-PROCESS_EINVAL, task, frame)
  else
    match access.vmmCopyin task.memory (task.thread.signalFrameUser + 8) 4 with
    | (memory, none) => (-PROCESS_EINVAL, { task with memory := memory }, frame)
    | (memory, some header) =>
      if !sigreturnHeaderValid task.thread frame header then
        (-PROCESS_EINVAL, { task with memory := memory }, frame)
      else
        let restored := SyscallFrame.ofWrapper task.thread.savedFrame
        (restored.regs .rax,
          { task with thread := leaveHandlerThread task.thread, memory := memory },
          restored)

/-- The checks of `process_sigreturn` on the state before the call. -/
def SigreturnAccepted (task : SignalTask μ) (frame : SyscallFrame) : Prop :=
  sigreturnWindow task.thread frame ∧
    ∃ header, (access.vmmCopyin task.memory
        (task.thread.signalFrameUser + 8) 4).2 = some header ∧
      sigreturnHeaderValid task.thread frame header

theorem processSigreturn_accepted {task : SignalTask μ} {frame : SyscallFrame}
    (h : SigreturnAccepted access task frame) :
    processSigreturn access task frame =
      ((SyscallFrame.ofWrapper task.thread.savedFrame).regs .rax,
        { task with
          thread := leaveHandlerThread task.thread
          memory := (access.vmmCopyin task.memory
            (task.thread.signalFrameUser + 8) 4).1 },
        SyscallFrame.ofWrapper task.thread.savedFrame) := by
  obtain ⟨hwindow, header, hcopy, hheader⟩ := h
  unfold processSigreturn
  cases hcopyin : access.vmmCopyin task.memory (task.thread.signalFrameUser + 8) 4 with
  | mk memory result =>
    rw [hcopyin] at hcopy
    simp_all

theorem processSigreturn_rejected {task : SignalTask μ} {frame : SyscallFrame}
    (h : ¬SigreturnAccepted access task frame) :
    ∃ memory, processSigreturn access task frame =
      (-PROCESS_EINVAL, { task with memory := memory }, frame) := by
  unfold processSigreturn
  split
  · exact ⟨task.memory, rfl⟩
  next hwindow =>
  split
  next memory _ => exact ⟨memory, rfl⟩
  next memory header hcopy =>
  have hheader : ¬sigreturnHeaderValid task.thread frame header := by
    intro hvalid
    exact h ⟨by simpa using hwindow, header, by rw [hcopy], hvalid⟩
  exact ⟨memory, by simp [hheader]⟩

end Return

/-! ## Pending signals -/

inductive PendingOutcome (μ : Type) where
  | none (task : SignalTask μ)
  | delivered (task : SignalTask μ) (frame : Stack Word)
  | terminated (task : SignalTask μ) (signal : Word)

/-- A pending signal is taken off the thread: its bit is cleared, one queued
record of it is popped, and the bit is set again while more are queued. -/
def takePendingSignal (thread : Thread) (signal : Word) : Thread × Option SignalInfo :=
  let cleared := { thread with
    signalPending := thread.signalPending &&& ~~~signalBit signal }
  let popped := signalQueuePop cleared signal
  (if signalQueueContains popped.1 signal then
      { popped.1 with signalPending := popped.1.signalPending ||| signalBit signal }
    else popped.1,
    popped.2)

section Pending

variable {μ : Type} (access : UserAccess μ)

/-- The loop of `process_deliver_pending_common` over the given signal
numbers. -/
def deliverPendingFrom (deliverable : Word) :
    List ℕ → SignalTask μ → Stack Word → PendingOutcome μ
  | [], task, _ => .none task
  | number :: numbers, task, frame =>
    let signal := BitVec.ofNat 64 number
    if deliverable &&& signalBit signal = 0 then
      deliverPendingFrom deliverable numbers task frame
    else
      let taken := takePendingSignal task.thread signal
      let task := { task with thread := taken.1 }
      let action := task.process.signalActions number
      if action.handler = 1 ∧ ¬signalUncatchable signal then
        deliverPendingFrom deliverable numbers task frame
      else if signalUncatchable signal ∨ action.handler = 0 then
        .terminated task signal
      else
        match processDeliverSignalWithInfo access task frame signal taken.2 with
        | (true, task, frame) => .delivered task frame
        | (false, task, _) => .terminated task signal

def processDeliverPendingCommon (task : SignalTask μ) (frame : Stack Word) : PendingOutcome μ :=
  if !task.process.alive || task.thread.privilegeRing != 3 ||
      task.thread.signalInflight then .none task
  else
    deliverPendingFrom access
      (task.thread.signalPending &&& ~~~task.thread.signalBlocked)
      (List.range' 1 64) task frame

theorem processDeliverPendingCommon_inflight {task : SignalTask μ}
    (h : task.thread.signalInflight) (frame : Stack Word) :
    processDeliverPendingCommon access task frame = .none task := by
  simp [processDeliverPendingCommon, h]

/-- `process_deliver_pending_signal_syscall`: the same loop on the wrapper of a
syscall frame, copied back after a delivery. -/
def processDeliverPendingSignalSyscall (task : SignalTask μ) (frame : SyscallFrame) :
    PendingOutcome μ :=
  processDeliverPendingCommon access task frame.wrapper

end Pending

/-- A thread with its signal state cleared: what signal handling leaves
alone. -/
def Thread.withoutSignals (thread : Thread) : Thread :=
  { thread with
    signalInflight := false
    signalFrameUser := 0
    signalRestorer := 0
    signalNumber := 0
    signalBlocked := 0
    signalPending := 0
    signalSavedMask := 0
    signalQueue := fun _ => SignalInfo.zero
    signalQueueHead := 0
    signalQueueTail := 0
    signalQueueCount := 0
    signalSavedFrame := fun _ => 0 }

theorem signalQueuePop_withoutSignals (thread : Thread) (signal : Word) :
    (signalQueuePop thread signal).1.withoutSignals = thread.withoutSignals := by
  unfold signalQueuePop
  split <;> rfl

@[simp]
theorem takePendingSignal_withoutSignals (thread : Thread) (signal : Word) :
    (takePendingSignal thread signal).1.withoutSignals = thread.withoutSignals := by
  have hpop := signalQueuePop_withoutSignals
    { thread with signalPending := thread.signalPending &&& ~~~signalBit signal } signal
  unfold takePendingSignal
  dsimp only
  split <;> exact hpop

section PendingSpec

variable {μ : Type} (access : UserAccess μ)

/-- One delivery to the given frame, from a state in which the loop has only taken
signals off the thread. -/
def DeliveredOnce (task last : SignalTask μ) (frame frame' : Stack Word) : Prop :=
  ∃ start signal info,
    processDeliverSignalWithInfo access start frame signal info = (true, last, frame') ∧
    start.thread.withoutSignals = task.thread.withoutSignals ∧ start.process = task.process

theorem deliverPendingFrom_delivered {deliverable : Word} {numbers : List ℕ}
    {task last : SignalTask μ} {frame frame' : Stack Word}
    (h : deliverPendingFrom access deliverable numbers task frame = .delivered last frame') :
    DeliveredOnce access task last frame frame' := by
  induction numbers generalizing task with
  | nil => simp [deliverPendingFrom] at h
  | cons number numbers ih =>
    rw [deliverPendingFrom] at h
    dsimp only at h
    split at h
    · exact ih h
    split at h
    · obtain ⟨start, signal, info, hdeliver, hthread, hprocess⟩ := ih h
      refine ⟨start, signal, info, hdeliver, ?_, hprocess⟩
      rw [hthread, takePendingSignal_withoutSignals]
    · split at h
      · simp at h
      · split at h
        next hdeliver =>
          injection h with hlast hframe
          subst hlast hframe
          exact ⟨_, _, _, hdeliver, takePendingSignal_withoutSignals _ _, rfl⟩
        · simp at h

theorem processDeliverPendingCommon_delivered {task last : SignalTask μ} {frame frame' : Stack Word}
    (h : processDeliverPendingCommon access task frame = .delivered last frame') :
    DeliveredOnce access task last frame frame' := by
  unfold processDeliverPendingCommon at h
  split at h
  · simp at h
  · exact deliverPendingFrom_delivered access h

end PendingSpec

end NPKernel
