import NPKernel.GuardedRuns
import NPKernel.SignalDelivery

/-!
# A signal handler returns to the interrupted frame

Between the delivery of a signal and the `rt_sigreturn` of its handler the
thread may run any user code, change its mask and its actions, receive and
fail to take further signals, and call `rt_sigreturn` from the wrong place.
None of these touches what delivery saved, because every writer of that state
refuses to act while a signal is in flight.
-/

namespace NPKernel

open RegisterStack GuardedRuns

/-- The futex waiter table is represented by the `futexWaiting` flag of the
thread that an active slot of it would name. -/
def futexCompleteThread (thread : Thread) (result : Word) : Thread :=
  if thread.futexWaiting then
    { thread with
      futexWaiting := false
      futexResult := result
      state := if thread.state = .blocked then .ready else thread.state }
  else thread

def queueSignalToThread (thread : Thread) (signal : Word)
    (info : Option SignalInfo) : Word × Thread :=
  if signalBit signal = 0 then (-PROCESS_ESRCH, thread)
  else
    match info.elim (some thread) (signalQueuePush thread) with
    | none => (-PROCESS_EAGAIN, thread)
    | some pushed =>
      let pending := { pushed with
        signalPending := pushed.signalPending ||| signalBit signal }
      (0, if signalUncatchable signal ∨
            pending.signalBlocked &&& signalBit signal = 0 then
          futexCompleteThread pending (-PROCESS_EINTR)
        else pending)

def processSetSignalMask (thread : Thread) (mask : Word) : Thread :=
  { thread with signalBlocked := mask &&& ~~~signalBit 9 &&& ~~~signalBit 19 }

/-- The signal state that `process_exec_current` resets. -/
def execSignalReset (thread : Thread) : Thread :=
  { thread with
    signalInflight := false
    signalFrameUser := 0
    signalRestorer := 0
    signalNumber := 0
    signalBlocked := 0
    signalPending := 0
    signalSavedMask := 0
    signalSavedFrame := fun _ => 0 }

/-- What can happen to a thread, as far as its signal state is concerned. -/
inductive ThreadAction (μ : Type) where
  | userCode (memory : μ)
  | setMask (mask : Word)
  | setAction (signal : ℕ) (action : SigAction)
  | queueSignal (signal : Word) (info : Option SignalInfo)
  | fault (frame : Stack Word) (signal : Word)
  | pendingSignals (frame : Stack Word)
  | sigreturn (frame : SyscallFrame)
  | exec (memory : μ)

section Actions

variable {μ : Type} (access : UserAccess μ)

/-- One action; `none` when it ends the process. -/
def SignalTask.step (task : SignalTask μ) : ThreadAction μ → Option (SignalTask μ)
  | .userCode memory => some { task with memory := memory }
  | .setMask mask => some { task with thread := processSetSignalMask task.thread mask }
  | .setAction signal action =>
    some { task with
      process := { task.process with
        signalActions := Function.update task.process.signalActions signal action } }
  | .queueSignal signal info =>
    some { task with thread := (queueSignalToThread task.thread signal info).2 }
  | .fault frame signal =>
    match processDeliverSignal access task frame signal with
    | (true, task, _) => some task
    | (false, _, _) => none
  | .pendingSignals frame =>
    match processDeliverPendingCommon access task frame with
    | .none task => some task
    | .delivered task _ => some task
    | .terminated _ _ => none
  | .sigreturn frame => some (processSigreturn access task frame).2.1
  | .exec memory =>
    some { task with
      thread := execSignalReset task.thread
      process := { task.process with signalActions := fun _ => SigAction.zero }
      memory := memory }

/-- The actions of a handler before its own return: neither exec nor an
accepted `rt_sigreturn`. -/
def HandlerAction (task : SignalTask μ) : ThreadAction μ → Prop
  | .exec _ => False
  | .sigreturn frame => ¬SigreturnAccepted access task frame
  | _ => True

structure InHandler (saved : Fin 20 → Word) (mask frameUser restorer signal : Word)
    (thread : Thread) : Prop where
  inflight : thread.signalInflight = true
  savedFrame : thread.signalSavedFrame = saved
  savedMask : thread.signalSavedMask = mask
  frameUser : thread.signalFrameUser = frameUser
  restorer : thread.signalRestorer = restorer
  number : thread.signalNumber = signal

namespace InHandler

variable {saved : Fin 20 → Word} {mask frameUser restorer signal : Word}
  {thread : Thread}

variable (h : InHandler saved mask frameUser restorer signal thread)

include h

theorem afterSetMask (newMask : Word) :
    InHandler saved mask frameUser restorer signal (processSetSignalMask thread newMask) :=
  ⟨h.1, h.2, h.3, h.4, h.5, h.6⟩

theorem afterFutexComplete (result : Word) :
    InHandler saved mask frameUser restorer signal (futexCompleteThread thread result) := by
  unfold futexCompleteThread
  split
  · exact ⟨h.1, h.2, h.3, h.4, h.5, h.6⟩
  · exact h

theorem afterPush
    {info : SignalInfo} {pushed : Thread} (hpush : signalQueuePush thread info = some pushed) :
    InHandler saved mask frameUser restorer signal pushed := by
  unfold signalQueuePush at hpush
  split at hpush
  · simp at hpush
  · cases hpush
    exact ⟨h.1, h.2, h.3, h.4, h.5, h.6⟩

theorem afterQueueSignal (sent : Word) (info : Option SignalInfo) :
    InHandler saved mask frameUser restorer signal (queueSignalToThread thread sent info).2 := by
  unfold queueSignalToThread
  split
  · exact h
  cases hpush : info.elim (some thread) (signalQueuePush thread) with
  | none => exact h
  | some pushed =>
    have hpushed : InHandler saved mask frameUser restorer signal pushed := by
      cases info with
      | none =>
        have heq : thread = pushed := by simpa using hpush
        exact heq ▸ h
      | some info => exact h.afterPush hpush
    have hpending : InHandler saved mask frameUser restorer signal
        { pushed with signalPending := pushed.signalPending ||| signalBit sent } :=
      ⟨hpushed.1, hpushed.2, hpushed.3, hpushed.4, hpushed.5, hpushed.6⟩
    dsimp only
    split
    · exact hpending.afterFutexComplete _
    · exact hpending

end InHandler

variable {task : SignalTask μ} {saved : Fin 20 → Word} {mask frameUser restorer signal : Word}
  {call : SyscallFrame}

theorem processDeliverSignalWithInfo_inflight
    (h : task.thread.signalInflight) (frame : Stack Word) (signal : Word)
    (info : Option SignalInfo) :
    processDeliverSignalWithInfo access task frame signal info = (false, task, frame) := by
  simp [processDeliverSignalWithInfo, deliveryAllowed, h]

theorem InHandler.afterStep {saved : Fin 20 → Word}
    {mask frameUser restorer signal : Word} (task : SignalTask μ)
    (action : ThreadAction μ) (next : SignalTask μ)
    (h : InHandler saved mask frameUser restorer signal task.thread)
    (haction : HandlerAction access task action) (hstep : task.step access action = some next) :
    InHandler saved mask frameUser restorer signal next.thread := by
  cases action with
  | userCode memory =>
    cases hstep
    exact h
  | setMask newMask =>
    cases hstep
    exact h.afterSetMask newMask
  | setAction number newAction =>
    cases hstep
    exact h
  | queueSignal sent info =>
    cases hstep
    exact h.afterQueueSignal sent info
  | fault frame sent =>
    have hfail := processDeliverSignalWithInfo_inflight access h.inflight frame sent none
    simp [SignalTask.step, processDeliverSignal, hfail] at hstep
  | pendingSignals frame =>
    have hnone := processDeliverPendingCommon_inflight access h.inflight frame
    simp only [SignalTask.step, hnone, Option.some.injEq] at hstep
    exact hstep ▸ h
  | sigreturn frame =>
    obtain ⟨memory, hrejected⟩ := processSigreturn_rejected access haction
    simp only [SignalTask.step, hrejected, Option.some.injEq] at hstep
    exact hstep ▸ h
  | exec memory => exact haction.elim

theorem InHandler.afterRun {last : SignalTask μ} {actions : List (ThreadAction μ)}
    (h : InHandler saved mask frameUser restorer signal task.thread)
    (hguard : Guarded (SignalTask.step access) (HandlerAction access) task actions)
    (hrun : run (SignalTask.step access) task actions = some last) :
    InHandler saved mask frameUser restorer signal last.thread :=
  invariant_run (@InHandler.afterStep μ access saved mask frameUser restorer signal) h hguard hrun

theorem inHandler_of_delivered {frame : Stack Word} {info : Option SignalInfo}
    (h : (processDeliverSignalWithInfo access task frame signal info).1 = true) :
    let action := task.process.signalActions signal.toNat
    InHandler (fun i => frame i) task.thread.signalBlocked
      (signalFrameAddress (frame 18) (useSiginfo action info)) action.restorer signal
      (processDeliverSignalWithInfo access task frame signal info).2.1.thread := by
  rcases processDeliverSignalWithInfo_cases access task frame signal info with
    ⟨memory, hfail⟩ | ⟨memory, _, _, _, hok⟩
  · rw [hfail] at h
    simp at h
  · rw [hok]
    exact ⟨rfl, rfl, rfl, rfl, rfl, rfl⟩

/-- From the handler's state an accepted return gives back the saved words and
the saved mask, whatever the frame of the call holds. -/
theorem InHandler.sigreturn_restores
        (h : InHandler saved mask frameUser restorer signal task.thread)
    (haccepted : SigreturnAccepted access task call) :
    (∀ i : Fin 20, (processSigreturn access task call).2.2.wrapper i = saved i) ∧
      (processSigreturn access task call).2.1.thread.signalBlocked = mask := by
  rw [processSigreturn_accepted access haccepted]
  refine ⟨fun i => ?_, h.savedMask⟩
  rw [SyscallFrame.wrapper_ofWrapper, Thread.savedFrame_fin, h.savedFrame]

/-- The handler's own return is accepted when it is made from the window after
the restorer, with the stack pointer just above the return address and the
header as it was written. -/
theorem InHandler.sigreturn_accepted
        (h : InHandler saved mask frameUser restorer signal task.thread) {siginfo : Bool}
    (hrsp : call.iret.rsp = frameUser + 8) (hrange : vmmIsUserRange call.iret.rip 1)
    (hafter : restorer ≤ call.iret.rip) (hwindow : call.iret.rip - restorer ≤ 32)
    (hheader : (access.vmmCopyin task.memory (frameUser + 8) 4).2 =
      some (signalHeader frameUser signal siginfo)) :
    SigreturnAccepted access task call := by
  refine ⟨?_, signalHeader frameUser signal siginfo, ?_, ?_⟩
  · simpa [sigreturnWindow, h.inflight, hrsp, h.frameUser] using hrange
  · rw [h.frameUser, hheader]
  · simpa [sigreturnHeaderValid, signalHeader, h.number, h.restorer,
      BitVec.not_lt.mpr hafter] using hwindow

/-- Delivery and `rt_sigreturn` are inverse to each other.  After a successful
delivery and any actions of the handler, its return restores the twenty words
of the interrupted frame and the blocked mask; every accepted return restores
the interrupted CS, RFLAGS and SS; and a rejected one changes neither the
caller's frame nor the signal state. -/
theorem sigreturn_inverts_delivery :
    (∀ (task : SignalTask μ) (frame : Stack Word) (signal : Word)
        (info : Option SignalInfo) (actions : List (ThreadAction μ))
        (last : SignalTask μ) (call : SyscallFrame),
      let action := task.process.signalActions signal.toNat
      let siginfo := useSiginfo action info
      let frameUser := signalFrameAddress (frame 18) siginfo
      let delivery := processDeliverSignalWithInfo access task frame signal info
      delivery.1 = true →
      Guarded (SignalTask.step access) (HandlerAction access) delivery.2.1 actions →
      run (SignalTask.step access) delivery.2.1 actions = some last →
      (call.iret.rsp = frameUser + 8 → vmmIsUserRange call.iret.rip 1 →
        action.restorer ≤ call.iret.rip → call.iret.rip - action.restorer ≤ 32 →
        (access.vmmCopyin last.memory (frameUser + 8) 4).2 =
          some (signalHeader frameUser signal siginfo) →
        (∀ i : Fin 20, (processSigreturn access last call).2.2.wrapper i = frame i) ∧
          (processSigreturn access last call).2.1.thread.signalBlocked =
            task.thread.signalBlocked) ∧
      (SigreturnAccepted access last call →
        (processSigreturn access last call).2.2.iret.cs = frame 16 ∧
        (processSigreturn access last call).2.2.iret.rflags = frame 17 ∧
        (processSigreturn access last call).2.2.iret.ss = frame 19)) ∧
    (∀ (task : SignalTask μ) (call : SyscallFrame),
      ¬SigreturnAccepted access task call →
      (processSigreturn access task call).1 = -PROCESS_EINVAL ∧
      (processSigreturn access task call).2.2 = call ∧
      (processSigreturn access task call).2.1.thread = task.thread ∧
      (processSigreturn access task call).2.1.process = task.process) := by
  constructor
  · intro task frame signal info actions last call action siginfo frameUser delivery
      hdelivered hguard hrun
    have hlast := (inHandler_of_delivered access hdelivered).afterRun access hguard hrun
    constructor
    · intro hrsp hrange hafter hwindow hheader
      exact hlast.sigreturn_restores access
        (hlast.sigreturn_accepted access hrsp hrange hafter hwindow hheader)
    · intro haccepted
      have hwords := (hlast.sigreturn_restores access haccepted).1
      exact ⟨hwords 16, hwords 17, hwords 19⟩
  · intro task call hrejected
    obtain ⟨memory, heq⟩ := processSigreturn_rejected access hrejected
    rw [heq]
    exact ⟨rfl, rfl, rfl, rfl⟩

end Actions

/-- User memory without page faults: every copy succeeds. -/
def flatAccess : UserAccess (Word → Word) where
  copyoutProcess memory address words :=
    (fun target =>
      match (List.range words.length).find? fun i =>
          address + 8 * BitVec.ofNat 64 i == target with
      | some i => words.getD i 0
      | none => memory target,
      true)
  vmmCopyin memory address count :=
    (memory, some ((List.range count).map fun i => memory (address + 8 * BitVec.ofNat 64 i)))

def sampleAction : SigAction where
  handler := 0x401000
  flags := 0
  restorer := 0x402000
  mask := 0x10

/-- A process that handles every signal, interrupted in user mode. -/
def sampleTask : SignalTask (Word → Word) where
  thread := { Thread.zero with privilegeRing := 3, signalBlocked := 0x4 }
  process := { Process.zero with alive := true, signalActions := fun _ => sampleAction }
  memory := fun _ => 0

def sampleFrame : Stack Word
  | 15 => 0x400123
  | 16 => USER_CS
  | 17 => 0x10202
  | 18 => 0x7fff0000
  | 19 => USER_SS
  | i => BitVec.ofNat 64 (i + 1)

def sampleReturn : SyscallFrame where
  regs := fun _ => 7
  iret :=
    { rip := 0x40200a, cs := USER_CS, rflags := 0x202, rsp := 0x7ffeffd8, ss := USER_SS }

/-- A handler for signal 11 that changes its mask and is sent a second signal
before it returns. -/
theorem sigreturn_inverts_delivery_sample :
    ∃ last,
      run (SignalTask.step flatAccess)
        (processDeliverSignalWithInfo flatAccess sampleTask sampleFrame 11 none).2.1
        [.setMask 0xff, .queueSignal 12 none] = some last ∧
      (∀ i : Fin 20,
        (processSigreturn flatAccess last sampleReturn).2.2.wrapper i = sampleFrame i) ∧
      (processSigreturn flatAccess last sampleReturn).2.1.thread.signalBlocked = 0x4 := by
  refine ⟨_, rfl, ?_⟩
  exact ((sigreturn_inverts_delivery flatAccess).1 sampleTask sampleFrame 11 none
    [.setMask 0xff, .queueSignal 12 none] _ sampleReturn rfl
    ⟨trivial, trivial, trivial⟩ rfl).1 (by decide) (by decide) (by decide) (by decide) rfl

end NPKernel
