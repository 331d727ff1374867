import NPKernel.SignalCalls

/-!
# The scheduler

`scheduler_yield` and `scheduler_preempt` of `src/proc/process.c`, the wait for
a key in `src/drivers/keyboard.c`, and what the callers of `scheduler_yield`
do when it returns to them.
-/

namespace NPKernel

open RegisterStack

def QUEUE_SIZE : ℕ := 1024

namespace Kernel

/-! ## Choosing a thread -/

/-- The slots after `start` in cyclic order; `start` itself comes last. -/
def slotsAfter (start : ThreadId) : List ThreadId :=
  threadIds.map fun offset => start + offset + 1

def findNextRunnable (kernel : Kernel) (start : ThreadId) (allowIdle : Bool) : Option ThreadId :=
  (slotsAfter start).find? fun candidate =>
    (candidate ≠ 0 || candidate == start) &&
      (allowIdle || candidate ≠ bspIdleThread) &&
      (kernel.threads candidate).state == .ready &&
      kernel.ownerAlive (kernel.threads candidate)

def nextNonIdleRunnable (kernel : Kernel) (start : ThreadId) : Option ThreadId :=
  kernel.findNextRunnable start false

def nextRunnable (kernel : Kernel) (start : ThreadId) : Option ThreadId :=
  match kernel.nextNonIdleRunnable start with
  | some candidate => some candidate
  | none => kernel.findNextRunnable start true

theorem findNextRunnable_some {kernel : Kernel} {start next : ThreadId} {allowIdle : Bool}
    (h : kernel.findNextRunnable start allowIdle = some next) :
    (kernel.threads next).state = .ready ∧ kernel.ownerAlive (kernel.threads next) = true ∧
      (allowIdle = false → next ≠ bspIdleThread) := by
  have hfound := List.find?_some h
  simp only [Bool.and_eq_true, beq_iff_eq] at hfound
  obtain ⟨⟨⟨-, hidle⟩, hready⟩, halive⟩ := hfound
  refine ⟨hready, halive, ?_⟩
  intro hallow
  simpa [hallow] using hidle

theorem nextRunnable_some {kernel : Kernel} {start next : ThreadId}
    (h : kernel.nextRunnable start = some next) :
    (kernel.threads next).state = .ready ∧ kernel.ownerAlive (kernel.threads next) = true := by
  unfold nextRunnable at h
  split at h
  next hfound =>
    cases h
    have hnext := findNextRunnable_some hfound
    exact ⟨hnext.1, hnext.2.1⟩
  · have hnext := findNextRunnable_some h
    exact ⟨hnext.1, hnext.2.1⟩

def activateThread (kernel : Kernel) (thread : ThreadId) : Kernel :=
  if (kernel.threads thread).owner = none then kernel
  else kernel.madeCurrent thread

/-! ## Returning to a caller of the scheduler -/

/-- The words of a saved frame.  The one that `materialize_context_frame`
builds has a kernel selector. -/
def frameWords (kernel : Kernel) : FramePtr → Stack Word
  | .stackTop thread => (kernel.threads thread).frame
  | .belowContext thread =>
    SyscallFrame.wrapper
      { regs := (kernel.threads thread).context.regs
        iret :=
          { rip := (kernel.threads thread).context.rip
            cs := KERNEL_CS
            rflags := (kernel.threads thread).context.rflags
            rsp := 0
            ss := 0 } }

/-- `scheduler_yield` returns at `site` to the thread that is now current. -/
def returnFrom (answers : Answers) (kernel : Kernel) : YieldSite → Kernel
  | .wait4 => { (processWait4Tail answers kernel).2 with mode := .user }
  | .futex =>
    let tail := kernel.processFutexWaitTail
    if tail.1 = -PROCESS_EINTR then
      (deliverPendingSignal answers { tail.2 with mode := .user } kernel.running.frame).1
    else { tail.2 with mode := .user }
  | .schedYield => { kernel with mode := .user }
  | .terminal =>
    { kernel.setThread kernel.current
        { kernel.running with privilegeRing := kernel.running.userRing } with
      mode := .terminal }
  | .idle => { kernel with mode := .idle }
  | .exit => { kernel with mode := .halted }

/-- `context_switch` to the thread that is now current.  The context a kernel
thread is created with enters it; that of a user thread holds user addresses. -/
def contextSwitch (answers : Answers) (kernel : Kernel) (old : ThreadId) (site : YieldSite) :
    Kernel :=
  let stored := kernel.setThread old { kernel.threads old with savedContext := some site }
  match (kernel.threads kernel.current).savedContext with
  | some resumed => returnFrom answers stored resumed
  | none => { stored with mode := if kernel.current = bspIdleThread then .idle else .lost }

def contextPresent (slot : ThreadSlot) : Bool :=
  slot.savedContext.isSome || slot.context.rip != 0 && slot.context.rsp != 0

/-- The frame the current thread is resumed from, built below its saved stack
pointer when there is none. -/
def materializeFrame (kernel : Kernel) : Kernel :=
  match kernel.running.savedInterruptFrame with
  | some _ => kernel
  | none =>
    if contextPresent kernel.running then
      kernel.setThread kernel.current
        { kernel.running with
          savedInterruptFrame := some (.belowContext kernel.current)
          savedFrameKind := .interrupt }
    else kernel

/-- The pending signals of the thread about to be resumed are delivered on its
saved frame, when that is an interrupt frame of user mode. -/
def resumeFrame (answers : Answers) (kernel : Kernel) (frame : FramePtr) : Kernel :=
  let words := kernel.frameWords frame
  if kernel.running.savedFrameKind = .interrupt ∧ isUserSelector (words 16) then
    match deliverPendingSignal answers kernel words with
    | (delivered, some words) =>
      { delivered.setThread delivered.current { delivered.running with frame := words } with
        mode := .user }
    | (terminated, none) => terminated
  else { kernel with mode := if isUserSelector (words 16) then .user else .lost }

/-- `scheduler_yield` leaves the running thread: it keeps its saved frame only
if it is blocked. -/
def deactivate (kernel : Kernel) : Kernel :=
  kernel.setThread kernel.current
    { kernel.running with
      state := if kernel.running.state = .running then .ready else kernel.running.state
      savedInterruptFrame :=
        if kernel.running.state = .blocked then kernel.running.savedInterruptFrame else none }

def schedulerYield (answers : Answers) (kernel : Kernel) (site : YieldSite) : Kernel :=
  match kernel.nextRunnable kernel.current with
  | none => returnFrom answers { kernel with reschedulePending := false } site
  | some next =>
    if next = kernel.current then
      returnFrom answers { kernel with reschedulePending := false } site
    else
      let activated :=
        { kernel.deactivate.activateThread next with reschedulePending := false }
      if activated.running.privilegeRing = 0 then
        contextSwitch answers activated kernel.current site
      else
        let ready := activated.materializeFrame
        match ready.running.savedInterruptFrame with
        | some frame => resumeFrame answers ready frame
        | none => contextSwitch answers ready kernel.current site

/-! ## Interrupts -/

/-- `scheduler_preempt` for an interrupt of user mode, called by
`irq_timer_dispatch`: the frame is saved, and the CPU returns through the saved
frame of the thread that is chosen.  For a thread of ring 0 that is the RET of
`restore_kernel_frame`, to the address in its frame. -/
def schedulerPreempt (answers : Answers) (kernel : Kernel) (user : UserState) : Kernel :=
  let expired := kernel.futexExpireWaiters
  let saved := expired.setThread expired.current
    { expired.running with
      savedInterruptFrame := some (.stackTop expired.current)
      savedFrameKind := .interrupt
      frame := user.words
      state := .running }
  match saved.nextNonIdleRunnable saved.current with
  | none => { saved with reschedulePending := false }
  | some next =>
    let activated :=
      { (saved.setThread saved.current { saved.running with state := .ready }).activateThread
          next with
        reschedulePending := false }
    let ready := activated.materializeFrame
    match ready.running.savedInterruptFrame with
    | some frame =>
      if ready.running.privilegeRing = 0 then { ready with mode := .lost }
      else resumeFrame answers ready frame
    | none => ready

def idleLoop (kernel : Kernel) : Kernel :=
  if kernel.mode = .idle ∧ kernel.reschedulePending then
    { kernel with mode := .yielding .idle }
  else kernel

def kernelTick (kernel : Kernel) : Kernel :=
  let expired := { kernel with timerTicks := kernel.timerTicks + 1 }.futexExpireWaiters
  idleLoop { expired with
    reschedulePending := (expired.nextNonIdleRunnable expired.current).isSome }

def schedulerWakeThread (kernel : Kernel) (thread : ThreadId) : Kernel :=
  if (kernel.threads thread).state = .blocked then
    { kernel.setThread thread { kernel.threads thread with state := .ready } with
      reschedulePending := true }
  else kernel

def enqueueByte (kernel : Kernel) : Kernel :=
  if kernel.inputQueued + 1 < QUEUE_SIZE then
    let queued := { kernel with inputQueued := kernel.inputQueued + 1, inputWaiter := none }
    idleLoop (match kernel.inputWaiter with
      | some waiter => queued.schedulerWakeThread waiter
      | none => queued)
  else kernel

/-- The running thread is blocked until the next key. -/
abbrev terminalBlocked (kernel : Kernel) : Kernel :=
  { kernel.setThread kernel.current
      { kernel.running with
        state := .blocked
        userRing := kernel.running.privilegeRing
        privilegeRing := 0 } with
    inputWaiter := some kernel.current
    mode := .yielding .terminal }

/-- One turn of the loop of `keyboard_getchar_blocking`; `more` says whether
the read goes on to another byte. -/
def keyboardGetchar (kernel : Kernel) (more : Bool) : Kernel :=
  if 0 < kernel.inputQueued then
    { kernel with
      inputQueued := kernel.inputQueued - 1
      mode := if more then .terminal else .user }
  else kernel.terminalBlocked

end Kernel

end NPKernel
