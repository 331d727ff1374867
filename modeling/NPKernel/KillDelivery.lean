import NPKernel.RunningThread
import NPKernel.SignalQueues

/-!
# A pending kill at a delivery point

`process_deliver_pending_common` does nothing while a signal is in flight, and
it stops at the first signal it can hand to a handler.  A pending SIGKILL ends
the process only when neither happens: no handler runs, and the lowest-numbered
signal that is pending, unblocked and not ignored is fatal.
-/

namespace NPKernel

open RegisterStack

def SIGKILL : Word := 9

def ignoredSignal (process : Process) (number : ℕ) : Bool :=
  (process.signalActions number).handler == 1 && !signalUncatchable (BitVec.ofNat 64 number)

/-- The signals are tried in increasing order, and the ignored ones are passed
over. -/
def firstActed (process : Process) (deliverable : Word) (numbers : List ℕ) : Option ℕ :=
  numbers.find? fun number =>
    deliverable &&& signalBit (BitVec.ofNat 64 number) != 0 && !ignoredSignal process number

theorem takePendingSignal_kept (thread : Thread) (signal : Word) :
    (takePendingSignal thread signal).1.signalInflight = thread.signalInflight ∧
      (takePendingSignal thread signal).1.privilegeRing = thread.privilegeRing := by
  have hpopped : (poppedSignal thread signal).signalInflight = thread.signalInflight ∧
      (poppedSignal thread signal).privilegeRing = thread.privilegeRing := by
    unfold poppedSignal signalQueuePop
    split <;> exact ⟨rfl, rfl⟩
  rw [takePendingSignal_thread]
  split <;> exact hpopped

theorem pendingChoice_kept (process : Process) (deliverable : Word) (numbers : List ℕ)
    (thread : Thread) :
    (pendingChoice process deliverable numbers thread).1.signalInflight =
        thread.signalInflight ∧
      (pendingChoice process deliverable numbers thread).1.privilegeRing =
        thread.privilegeRing := by
  induction numbers generalizing thread with
  | nil => exact ⟨rfl, rfl⟩
  | cons number numbers ih =>
    have htook := takePendingSignal_kept thread (BitVec.ofNat 64 number)
    rw [pendingChoice]
    dsimp only
    split
    · exact ih thread
    split
    · have hrest := ih (takePendingSignal thread (BitVec.ofNat 64 number)).1
      exact ⟨hrest.1.trans htook.1, hrest.2.trans htook.2⟩
    · split <;> exact htook

/-- What the loop chooses, said of the state before it: the first signal it does
not pass over, with the oldest record of that signal. -/
theorem pendingChoice_eq {process : Process} {deliverable : Word} {numbers : List ℕ}
    {thread : Thread} (hbound : thread.signalQueueCount ≤ NPK_SIGNAL_QUEUE_MAX)
    (hnodup : (numbers.map (BitVec.ofNat 64)).Nodup) :
    (pendingChoice process deliverable numbers thread).2 =
      match firstActed process deliverable numbers with
      | none => .none
      | some number =>
        if signalUncatchable (BitVec.ofNat 64 number) ∨
            (process.signalActions number).handler = 0 then
          .terminate (BitVec.ofNat 64 number)
        else
          .deliver (BitVec.ofNat 64 number)
            (thread.queued.find? (isSignal (BitVec.ofNat 64 number))) := by
  induction numbers generalizing thread with
  | nil => rfl
  | cons number numbers ih =>
    rw [List.map_cons, List.nodup_cons] at hnodup
    rw [pendingChoice, firstActed, List.find?_cons]
    dsimp only
    split
    next hclear =>
      rw [ih hbound hnodup.2, hclear]
      rfl
    next hset =>
    split
    next hignored =>
      have hpassed : ignoredSignal process number = true := by
        simpa [ignoredSignal] using hignored
      rw [ih (takePendingSignal_bounded hbound _) hnodup.2, hpassed, Bool.not_true,
        Bool.and_false]
      dsimp only
      rw [← firstActed]
      cases hfirst : firstActed process deliverable numbers with
      | none => rfl
      | some later =>
        have hmem : BitVec.ofNat 64 later ∈ numbers.map (BitVec.ofNat 64) :=
          List.mem_map_of_mem (List.mem_of_find?_eq_some hfirst)
        have hne : BitVec.ofNat 64 number ≠ BitVec.ofNat 64 later :=
          fun heq => hnodup.1 (heq ▸ hmem)
        dsimp only
        rw [takePendingSignal_queued hbound,
          RingBuffers.find?_eraseP_of_disjoint (isSignal_disjoint hne)]
    next hacted =>
    have hstops : ignoredSignal process number = false := by
      simpa [ignoredSignal] using hacted
    have hfound : (deliverable &&& signalBit (BitVec.ofNat 64 number) != 0 &&
        !ignoredSignal process number) = true := by
      rw [hstops, Bool.not_false, Bool.and_true]
      exact bne_iff_ne.2 hset
    rw [hfound]
    dsimp only
    split
    · rfl
    · rw [takePendingSignal_info]

section Handlers

variable {μ : Type} (access : UserAccess μ)

/-- The checks of `process_deliver_signal_with_info` on the action, on the user
stack pointer and on the memory that the signal frame is copied to. -/
def handlerEntered (task : SignalTask μ) (rsp signal : Word) (info : Option SignalInfo) : Bool :=
  let action := task.process.signalActions signal.toNat
  let siginfo := useSiginfo action info
  signalActionHandlerValid action && signalFrameFits rsp siginfo &&
    (copyoutAll access task.memory
      (signalFrameCopies action (signalFrameAddress rsp siginfo) signal info)).2

theorem processDeliverSignalWithInfo_entered (task : SignalTask μ) (frame : Stack Word)
    (signal : Word) (info : Option SignalInfo) :
    (processDeliverSignalWithInfo access task frame signal info).1 =
      (deliveryAllowed task signal && handlerEntered access task (frame 18) signal info) := by
  unfold processDeliverSignalWithInfo handlerEntered
  split
  next hrefused => simp_all
  next hallowed =>
  dsimp only
  split
  next hinvalid => simp_all
  next hvalid =>
  split
  next hnofit => simp_all
  next hfits =>
    split
    next hcopies => simp_all
    next hcopies => simp_all

/-- The signal ends the process: it is uncatchable, its action is the default
one, or its handler cannot be entered. -/
def fatalSignal (task : SignalTask μ) (rsp : Word) (number : ℕ) : Bool :=
  let signal := BitVec.ofNat 64 number
  signalUncatchable signal || (task.process.signalActions number).handler == 0 ||
    !handlerEntered access task rsp signal (task.thread.queued.find? (isSignal signal))

/-- No handler runs, and the first signal that is not passed over is fatal. -/
def killReached (task : SignalTask μ) (rsp : Word) : Bool :=
  !task.thread.signalInflight &&
    (firstActed task.process (task.thread.signalPending &&& ~~~task.thread.signalBlocked)
      (List.range' 1 64)).any (fatalSignal access task rsp)

def PendingOutcome.terminates : PendingOutcome μ → Bool
  | .terminated _ _ => true
  | _ => false

/-- The loop ends the process exactly when the first signal that it does not
pass over is fatal. -/
theorem deliverPendingFrom_terminates {task : SignalTask μ} {deliverable : Word}
    (frame : Stack Word) (halive : task.process.alive = true)
    (hring : task.thread.privilegeRing = 3) (hinflight : task.thread.signalInflight = false)
    (hbound : task.thread.signalQueueCount ≤ NPK_SIGNAL_QUEUE_MAX) :
    (deliverPendingFrom access deliverable (List.range' 1 64) task frame).terminates =
      (firstActed task.process deliverable (List.range' 1 64)).any
        (fatalSignal access task (frame 18)) := by
  have hnodup : ((List.range' 1 64).map (BitVec.ofNat 64)).Nodup := by decide
  have hchosen : (pendingChoice task.process deliverable (List.range' 1 64) task.thread).2 = _ :=
    pendingChoice_eq hbound hnodup
  obtain ⟨hflying, hprivilege⟩ :=
    pendingChoice_kept task.process deliverable (List.range' 1 64) task.thread
  rw [deliverPendingFrom_choice]
  rcases hchoice : pendingChoice task.process deliverable (List.range' 1 64) task.thread with
    ⟨thread, choice⟩
  rw [hchoice] at hchosen hflying hprivilege
  dsimp only at hchosen hflying hprivilege
  cases hfirst : firstActed task.process deliverable (List.range' 1 64) with
  | none =>
    rw [hfirst] at hchosen
    rw [hchosen]
    rfl
  | some number =>
    have hrange : 1 ≤ number ∧ number < 65 := by
      have hmem := List.mem_of_find?_eq_some hfirst
      simpa [List.mem_range'_1] using hmem
    rw [hfirst] at hchosen
    dsimp only at hchosen
    rw [Option.any_some, fatalSignal]
    by_cases hdefault : signalUncatchable (BitVec.ofNat 64 number) = true ∨
        (task.process.signalActions number).handler = 0
    · rw [if_pos hdefault] at hchosen
      have hfatal : (signalUncatchable (BitVec.ofNat 64 number) ||
          (task.process.signalActions number).handler == 0) = true := by
        simpa using hdefault
      rw [hchosen, hfatal, Bool.true_or]
      rfl
    · rw [if_neg hdefault] at hchosen
      have hcaught : (signalUncatchable (BitVec.ofNat 64 number) ||
          (task.process.signalActions number).handler == 0) = false := by
        simpa using hdefault
      have hallowed : deliveryAllowed { task with thread := thread }
          (BitVec.ofNat 64 number) = true := by
        have hzero : BitVec.ofNat 64 number ≠ 0#64 := by bv_omega
        have hmax : ¬NPK_SIGNAL_MAX < BitVec.ofNat 64 number := by
          unfold NPK_SIGNAL_MAX
          bv_omega
        simp [deliveryAllowed, halive, hprivilege, hring, hflying, hinflight, hzero, hmax]
      have hentered := processDeliverSignalWithInfo_entered access
        { task with thread := thread } frame (BitVec.ofNat 64 number)
        (task.thread.queued.find? (isSignal (BitVec.ofNat 64 number)))
      rw [hallowed, Bool.true_and] at hentered
      rw [hchosen, hcaught, Bool.false_or]
      dsimp only
      change _ = !handlerEntered access { task with thread := thread } _ _ _
      rw [← hentered]
      split
      next hdelivered => rw [hdelivered]; rfl
      next hfailed => rw [hfailed]; rfl

theorem processDeliverPendingCommon_terminates {task : SignalTask μ} (frame : Stack Word)
    (halive : task.process.alive = true) (hring : task.thread.privilegeRing = 3)
    (hbound : task.thread.signalQueueCount ≤ NPK_SIGNAL_QUEUE_MAX) :
    (processDeliverPendingCommon access task frame).terminates =
      killReached access task (frame 18) := by
  rw [killReached]
  cases hinflight : task.thread.signalInflight with
  | true =>
    rw [processDeliverPendingCommon_inflight access hinflight]
    rfl
  | false =>
    have hruns : (!task.process.alive || task.thread.privilegeRing != 3 ||
        task.thread.signalInflight) = false := by
      simp [halive, hring, hinflight]
    rw [processDeliverPendingCommon, hruns, if_neg Bool.false_ne_true,
      deliverPendingFrom_terminates access frame halive hring hinflight hbound]
    rfl

end Handlers

namespace Kernel

/-- The process has ended, and its frame is not returned to. -/
def TerminatedBy (process : ProcId) (outcome : Kernel × Option (Stack Word)) : Prop :=
  outcome.2 = none ∧ (outcome.1.processes process).alive = false

theorem wakeParentWaiter_alive (answers : Answers) (kernel : Kernel) (child process : ProcId) :
    ((wakeParentWaiter answers kernel child).processes process).alive =
      (kernel.processes process).alive := by
  have hprocess := (wakeParentWaiter_sched answers kernel child).process process
  have halive := congrArg (fun slot : ProcessSlot => slot.alive) hprocess
  exact halive

theorem processExitCurrent_alive {kernel : Kernel} {process : ProcId} (answers : Answers)
    (status : Word) (howner : kernel.processCurrent = some process)
    (halive : (kernel.processes process).alive = true) :
    ((processExitCurrent answers kernel status).processes process).alive = false ↔
      kernel.current ≠ 0 := by
  rw [processExitCurrent, howner]
  dsimp only
  split
  next hstays =>
    have hzero : kernel.current = 0 := by simpa [halive] using hstays
    simp [halive, hzero]
  next hends =>
    rw [endProcess, wakeParentWaiter_alive, setProcess_processes, if_pos rfl]
    simp only [halive, Bool.not_true, Bool.false_eq_true, or_false] at hends
    simp [hends]

/-- A ring-3 thread of a live process at a delivery point with SIGKILL pending. -/
structure KillPending (kernel : Kernel) (process : ProcId) : Prop where
  owner : kernel.processCurrent = some process
  alive : (kernel.processes process).alive = true
  ring : kernel.running.privilegeRing = 3
  queue : kernel.running.signalQueueCount ≤ NPK_SIGNAL_QUEUE_MAX
  pending : kernel.running.signalPending &&& signalBit SIGKILL ≠ 0

/-- A pending SIGKILL ends the process at a delivery point exactly when no
handler runs and the first signal that is not passed over is fatal; the boot
thread, which is never in ring 3, cannot exit. -/
theorem pending_kill_terminates_iff {kernel : Kernel} {process : ProcId}
    (h : KillPending kernel process) (answers : Answers) :
    (∀ frame : Stack Word,
      TerminatedBy process (kernel.deliverPendingSignal answers frame) ↔
        kernel.current ≠ 0 ∧
          killReached answers.access (kernel.signalTask process) (frame 18) = true) ∧
    ∀ frame : SyscallFrame,
      TerminatedBy process (kernel.deliverPendingSignal answers frame.wrapper) ↔
        kernel.current ≠ 0 ∧
          killReached answers.access (kernel.signalTask process) frame.iret.rsp = true := by
  have hframe : ∀ frame : Stack Word,
      TerminatedBy process (kernel.deliverPendingSignal answers frame) ↔
        kernel.current ≠ 0 ∧
          killReached answers.access (kernel.signalTask process) (frame 18) = true := by
    intro frame
    rw [← processDeliverPendingCommon_terminates answers.access frame h.alive h.ring h.queue,
      deliverPendingSignal, h.owner, TerminatedBy]
    dsimp only
    cases houtcome : processDeliverPendingCommon answers.access (kernel.signalTask process)
        frame with
    | none | delivered => simp [PendingOutcome.terminates]
    | terminated task signal =>
      have hthreadOwner :=
        (processDeliverPendingCommon_quiet .wake answers.access frame h.owner).2
      rw [houtcome] at hthreadOwner
      have howner : (kernel.putThread task.thread).processCurrent = some process := by
        rw [processCurrent, running_putThread]
        exact hthreadOwner
      have hexit := processExitCurrent_alive answers
        (if 255 < 128 + signal then 255 else 128 + signal) howner h.alive
      simpa [PendingOutcome.terminates, terminateBySignal, putThread] using hexit
  exact ⟨hframe, fun frame => hframe frame.wrapper⟩

end Kernel

/-- The first program after it has sent itself SIGKILL, before the call looks for
pending signals. -/
def killedLaunched : Kernel :=
  (sampleKernel.processSendSignalInfo 0 9 none).2

theorem pending_kill_terminates_iff_launched :
    Kernel.KillPending killedLaunched 1 ∧
      Kernel.TerminatedBy 1
        (killedLaunched.deliverPendingSignal (willing []) (fun _ => 0x7fffe000)) := by
  have hpending : Kernel.KillPending killedLaunched 1 :=
    ⟨by decide +kernel, by decide +kernel, by decide +kernel, by decide +kernel, by decide +kernel⟩
  refine ⟨hpending, ?_⟩
  exact ((Kernel.pending_kill_terminates_iff hpending (willing [])).1 _).2
    ⟨by decide +kernel, by decide +kernel⟩

/-- A program installs a handler for SIGUSR1, enters it, and is sent SIGKILL
there. -/
def killedInHandler : List Event :=
  [.call 13 [10, 0x500000, 0, 8] (willing [0x400200, 0, 0x400300, 0]), .call 62 [0, 10],
    .call 62 [0, 9]]

/-- While the handler runs, every delivery point returns at once. -/
theorem handler_outlives_pending_kill :
    ∃ last, GuardedRuns.run Kernel.step sampleKernel killedInHandler = some last ∧
      Kernel.KillPending last 1 ∧
      ∀ answers frame, ¬Kernel.TerminatedBy 1 (last.deliverPendingSignal answers frame) := by
  have hreached : (GuardedRuns.run Kernel.step sampleKernel
      killedInHandler).map (fun last => (last.processCurrent, (last.processes 1).alive,
        last.running.privilegeRing, last.running.signalQueueCount,
        last.running.signalPending, last.running.signalInflight)) =
      some (some 1, true, 3, 0, 0x100, true) := by decide +kernel
  obtain ⟨last, hrun, hstate⟩ := Option.map_eq_some_iff.1 hreached
  simp only [Prod.mk.injEq] at hstate
  obtain ⟨howner, halive, hring, hcount, hkill, hinflight⟩ := hstate
  have hpending : Kernel.KillPending last 1 :=
    ⟨howner, halive, hring, by rw [hcount]; decide, by rw [hkill]; decide⟩
  refine ⟨last, hrun, hpending, ?_⟩
  rintro answers frame ⟨hnone, _⟩
  have hflying : (last.signalTask 1).thread.signalInflight = true := hinflight
  rw [Kernel.deliverPendingSignal, howner] at hnone
  dsimp only at hnone
  rw [processDeliverPendingCommon_inflight answers.access hflying] at hnone
  cases hnone

end NPKernel
