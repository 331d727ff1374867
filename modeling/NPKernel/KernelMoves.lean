import NPKernel.KernelRuns

/-!
# Scheduling, waiting and waking

Most of what the kernel does only moves threads between the scheduler's states.
`Move` lists the elementary moves that keep the current thread, and `Switch`
the parts of a change of the current thread.  `SchedStep` says what all of
them leave alone.
-/

namespace NPKernel

open RegisterStack GuardedRuns

variable {kernel : Kernel} {thread : ThreadId} {slot : ThreadSlot} {process : ProcId}
  {event : Event}

/-- A thread with the fields cleared that scheduling, waiting and waking use. -/
def ThreadSlot.withoutScheduling (slot : ThreadSlot) : ThreadSlot :=
  { slot with
    state := .unused
    privilegeRing := 0
    savedInterruptFrame := none
    savedFrameKind := .interrupt
    futexWaiting := false
    futexResult := 0
    userRing := 0
    frame := fun _ => 0
    savedContext := none }

def ProcessSlot.withoutWait (slot : ProcessSlot) : ProcessSlot :=
  { slot with
    waitActive := false
    waitTarget := 0
    waitResult := 0
    pendingReapPid := 0
    waitWoken := false
    waitStatusUser := 0 }

theorem ThreadState.ne_unused_of_live {state : ThreadState} (h : state.live = true) :
    state ≠ .unused := by
  rintro rfl
  simp [ThreadState.live] at h

namespace Kernel

structure SchedStep (before after : Kernel) : Prop where
  thread : ∀ thread, (after.threads thread).withoutScheduling =
    (before.threads thread).withoutScheduling
  live : ∀ thread, (after.threads thread).state.live = (before.threads thread).state.live
  unused : ∀ thread, (after.threads thread).state = .unused ↔
    (before.threads thread).state = .unused
  process : ∀ process, (after.processes process).withoutWait =
    (before.processes process).withoutWait
  nextPid : after.nextPid = before.nextPid
  nextTid : after.nextTid = before.nextTid

namespace SchedStep

theorem refl (kernel : Kernel) : SchedStep kernel kernel :=
  ⟨fun _ => rfl, fun _ => rfl, fun _ => Iff.rfl, fun _ => rfl, rfl, rfl⟩

theorem trans {first second third : Kernel} (h : SchedStep first second)
    (h' : SchedStep second third) : SchedStep first third where
  thread := fun thread => (h'.thread thread).trans (h.thread thread)
  live := fun thread => (h'.live thread).trans (h.live thread)
  unused := fun thread => (h'.unused thread).trans (h.unused thread)
  process := fun process => (h'.process process).trans (h.process process)
  nextPid := h'.nextPid.trans h.nextPid
  nextTid := h'.nextTid.trans h.nextTid

theorem of_tables {before after : Kernel} (hthreads : after.threads = before.threads)
    (hprocesses : after.processes = before.processes)
    (hpid : after.nextPid = before.nextPid) (htid : after.nextTid = before.nextTid) :
    SchedStep before after := by
  refine ⟨?_, ?_, ?_, ?_, hpid, htid⟩ <;> intro i <;> simp [hthreads, hprocesses]

theorem setThread (hslot : slot.withoutScheduling = (kernel.threads thread).withoutScheduling)
    (hlive : slot.state.live = (kernel.threads thread).state.live)
    (hunused : slot.state = .unused ↔ (kernel.threads thread).state = .unused) :
    SchedStep kernel (kernel.setThread thread slot) := by
  refine ⟨?_, ?_, ?_, fun _ => rfl, rfl, rfl⟩ <;>
    intro other <;> rw [setThread_threads] <;> split
  all_goals first
    | (next h => subst h; assumption)
    | rfl

theorem setProcess {slot : ProcessSlot}
    (hslot : slot.withoutWait = (kernel.processes process).withoutWait) :
    SchedStep kernel (kernel.setProcess process slot) := by
  refine ⟨fun _ => rfl, fun _ => rfl, fun _ => Iff.rfl, ?_, rfl, rfl⟩
  intro other
  rw [setProcess_processes]
  split
  next h =>
    subst h
    exact hslot
  · rfl

theorem ofThread {before after : Kernel}
    (hthreads : after.threads = Function.update before.threads thread slot)
    (hprocesses : after.processes = before.processes)
    (hpid : after.nextPid = before.nextPid) (htid : after.nextTid = before.nextTid)
    (hslot : slot.withoutScheduling = (before.threads thread).withoutScheduling)
    (hlive : slot.state.live = (before.threads thread).state.live)
    (hunused : slot.state = .unused ↔ (before.threads thread).state = .unused) :
    SchedStep before after :=
  (SchedStep.setThread hslot hlive hunused).trans (.of_tables hthreads hprocesses hpid htid)

theorem ofRunning {before after : Kernel}
    (hthreads : after.threads = Function.update before.threads before.current slot)
    (hprocess : ∀ process, (after.processes process).withoutWait =
      (before.processes process).withoutWait)
    (hpid : after.nextPid = before.nextPid) (htid : after.nextTid = before.nextTid)
    (hslot : slot.withoutScheduling = before.running.withoutScheduling)
    (hrunning : before.running.state.live = true) (hlive : slot.state.live = true) :
    SchedStep before after := by
  have hunused : slot.state = .unused ↔ before.running.state = .unused :=
    iff_of_false (ThreadState.ne_unused_of_live hlive) (ThreadState.ne_unused_of_live hrunning)
  refine ⟨?_, ?_, ?_, hprocess, hpid, htid⟩ <;>
    intro thread <;> rw [hthreads, Function.update_apply] <;> split
  all_goals first
    | (next h => subst h; first | exact hslot | exact hlive.trans hrunning.symm | exact hunused)
    | rfl

theorem withoutWait_update {before after : Kernel} {slot : ProcessSlot}
    (hprocesses : after.processes = Function.update before.processes process slot)
    (hslot : slot.withoutWait = (before.processes process).withoutWait) (other : ProcId) :
    (after.processes other).withoutWait = (before.processes other).withoutWait := by
  rw [hprocesses, Function.update_apply]
  split
  next h =>
    subst h
    exact hslot
  · rfl

variable {before after : Kernel} (h : SchedStep before after)
include h

theorem field {α : Type*} (view : ThreadSlot → α)
    (hview : ∀ slot, view slot.withoutScheduling = view slot) (thread : ThreadId) :
    view (after.threads thread) = view (before.threads thread) := by
  rw [← hview (after.threads thread), h.thread thread, hview]

theorem processField {α : Type*} (view : ProcessSlot → α)
    (hview : ∀ slot, view slot.withoutWait = view slot) (process : ProcId) :
    view (after.processes process) = view (before.processes process) := by
  rw [← hview (after.processes process), h.process process, hview]

theorem owner (thread : ThreadId) : (after.threads thread).owner = (before.threads thread).owner :=
  h.field (fun slot => slot.owner) (fun _ => rfl) thread

end SchedStep

variable {before after : Kernel} {parent child : ProcId} {waiter : ThreadId} {stored : Bool}

theorem FutexStep.sched (h : FutexStep before after) : SchedStep before after where
  thread := h.field ThreadSlot.withoutScheduling (fun _ _ => rfl)
  live := h.live
  unused := fun thread => (h.thread thread).unused
  process := fun process => by rw [h.processes]
  nextPid := by rw [h.rest]
  nextTid := by rw [h.rest]

theorem writeFrame_sched (kernel : Kernel) (frame : Option FramePtr) (index : ℕ) (word : Word) :
    SchedStep kernel (kernel.writeFrame frame index word) := by
  unfold writeFrame
  split
  · exact .setThread rfl rfl Iff.rfl
  · exact .refl kernel

theorem firstBlocked_some (h : kernel.firstBlocked process = some thread) :
    (kernel.threads thread).owner = some process ∧ (kernel.threads thread).state = .blocked := by
  have hfound := List.find?_some h
  simpa using hfound

/-- The kernel after a child has been reported to a blocked thread of its
parent: the result is the pid, or an error if the status could not be stored. -/
def reported (kernel : Kernel) (parent : ProcId) (waiter : ThreadId) (child : ProcId)
    (stored : Bool) : Kernel :=
  let result := if stored then BitVec.ofNat 64 (kernel.processes child).pid else -PROCESS_EFAULT
  ((kernel.setProcess parent
    { kernel.processes parent with
      waitActive := false
      waitResult := result
      pendingReapPid :=
        if stored then (kernel.processes child).pid else (kernel.processes parent).pendingReapPid
      waitWoken := true }).setThread waiter
    { kernel.threads waiter with state := .ready }).writeFrame
      (kernel.threads waiter).savedInterruptFrame 0 result

/-- The parent waits for the child, and `waiter` is its first blocked thread. -/
structure Reports (answers : Answers) (kernel : Kernel) (parent : ProcId) (waiter : ThreadId)
    (child : ProcId) (stored : Bool) : Prop where
  found : (kernel.processes child).parentPid ≠ 0 ∧
    kernel.findProcessByPid (kernel.processes child).parentPid = some parent
  waiting : (kernel.processes parent).alive = true ∧ (kernel.processes parent).waitActive = true ∧
    waitTargetMatches (kernel.processes parent).waitTarget (kernel.processes child).pid = true
  blocked : kernel.firstBlocked parent = some waiter
  status : stored = ((kernel.processes parent).waitStatusUser == 0 ||
    answers.copyoutProcess32 parent (kernel.processes parent).waitStatusUser
      (kernel.processes child).waitStatus)

theorem wakeParentWaiter_cases (answers : Answers) (kernel : Kernel) (child : ProcId) :
    wakeParentWaiter answers kernel child = kernel ∨
      ∃ parent waiter stored, Reports answers kernel parent waiter child stored ∧
        wakeParentWaiter answers kernel child = kernel.reported parent waiter child stored := by
  fun_cases wakeParentWaiter answers kernel child with
  | case5 _ hparentPid parent hparent _ hwaiting _ waiter hwaiter =>
    simp only [Bool.or_eq_true, Bool.not_eq_true', not_or, Bool.not_eq_false] at hwaiting
    refine .inr ⟨parent, waiter, _, ⟨⟨hparentPid, hparent⟩, ?_, hwaiter, rfl⟩, rfl⟩
    exact ⟨hwaiting.1.1, hwaiting.1.2, hwaiting.2⟩
  | _ => exact .inl rfl

theorem reported_sched (hblocked : (kernel.threads waiter).state = .blocked) :
    SchedStep kernel (kernel.reported parent waiter child stored) := by
  refine SchedStep.trans (SchedStep.trans (.setProcess ?_) (.setThread ?_ ?_ ?_))
    (writeFrame_sched _ _ _ _)
  · rfl
  · rfl
  · simp [hblocked, ThreadState.live]
  · simp [hblocked]

theorem wakeParentWaiter_sched (answers : Answers) (kernel : Kernel) (child : ProcId) :
    SchedStep kernel (wakeParentWaiter answers kernel child) := by
  rcases wakeParentWaiter_cases answers kernel child with hsame | ⟨parent, waiter, stored, h, heq⟩
  · rw [hsame]
    exact .refl kernel
  · rw [heq]
    exact reported_sched (firstBlocked_some h.blocked).2

/-! ## Choosing and leaving threads -/

theorem ownerAlive_owner (h : kernel.ownerAlive slot = true) :
    ∃ process, slot.owner = some process ∧ (kernel.processes process).alive = true := by
  unfold ownerAlive at h
  split at h
  next process howner => exact ⟨process, howner, h⟩
  · simp at h

theorem activateThread_eq {next : ThreadId} {process : ProcId}
    (howner : (kernel.threads next).owner = some process) :
    kernel.activateThread next = kernel.madeCurrent next :=
  if_neg (by simp [howner])

theorem activateThread_cases (P : Kernel → Prop) {next : ThreadId} (hkept : P kernel)
    (hmade : P (kernel.madeCurrent next)) : P (kernel.activateThread next) := by
  unfold activateThread
  split <;> assumption

theorem activateThread_sched {next : ThreadId} (hready : (kernel.threads next).state = .ready) :
    SchedStep kernel (kernel.activateThread next) := by
  refine activateThread_cases _ (.refl kernel) (.ofThread rfl rfl rfl rfl rfl ?_ ?_)
  · simp [hready, ThreadState.live]
  · simp [hready]

theorem deactivate_sched (kernel : Kernel) : SchedStep kernel kernel.deactivate := by
  have hstate : ∀ state : ThreadState,
      (if state = .running then ThreadState.ready else state).live = state.live ∧
        ((if state = .running then ThreadState.ready else state) = .unused ↔ state = .unused) := by
    intro state
    cases state <;> simp [ThreadState.live]
  exact .setThread rfl (hstate _).1 (hstate _).2

theorem materializeFrame_cases (P : Kernel → Prop) (hkept : P kernel)
    (hmade : kernel.running.savedInterruptFrame = none → P (kernel.setThread kernel.current
      { kernel.running with
        savedInterruptFrame := some (.belowContext kernel.current)
        savedFrameKind := .interrupt })) : P kernel.materializeFrame := by
  unfold materializeFrame
  split
  · exact hkept
  next hnone =>
    split
    · exact hmade hnone
    · exact hkept

theorem materializeFrame_of_saved {pointer : FramePtr}
    (h : kernel.running.savedInterruptFrame = some pointer) : kernel.materializeFrame = kernel := by
  unfold materializeFrame
  rw [h]

theorem materializeFrame_sched (kernel : Kernel) : SchedStep kernel kernel.materializeFrame :=
  materializeFrame_cases _ (.refl kernel) fun _ => .setThread rfl rfl Iff.rfl

/-! ## Elementary moves -/

/-- One scheduling move during an event; the current thread stays current. -/
inductive Move (event : Event) : Kernel → Kernel → Prop
  | outside {before after : Kernel} (hthreads : after.threads = before.threads)
      (hprocesses : after.processes = before.processes)
      (hcurrent : after.current = before.current)
      (hpid : after.nextPid = before.nextPid) (htid : after.nextTid = before.nextTid)
      (hwaiters : after.futexWaiters = before.futexWaiters)
      (hinput : after.inputWaiter = before.inputWaiter ∨ after.inputWaiter = none) :
      Move event before after
  | futex {before after : Kernel} (hstep : FutexStep before after) : Move event before after
  | reported (answers : Answers) {kernel : Kernel} {child : ProcId}
      (hdead : (kernel.processes child).alive = false) :
      Move event kernel (wakeParentWaiter answers kernel child)
  | reapTaken {kernel : Kernel} {parent : ProcId}
      (hparent : kernel.processCurrent = some parent) :
      Move event kernel (kernel.setProcess parent
        { kernel.processes parent with pendingReapPid := 0 })
  | entered (kernel : Kernel) (frame : SyscallFrame) :
      Move event kernel (kernel.setThread kernel.current
        { kernel.running with
          savedInterruptFrame := some (.stackTop kernel.current)
          savedFrameKind := .syscall
          frame := frame.raw })
  | interrupted {kernel : Kernel} (user : UserState)
      (hlive : kernel.running.state.live = true)
      (hevent : ∃ user answers, event = .timer user answers) :
      Move event kernel (kernel.setThread kernel.current
        { kernel.running with
          savedInterruptFrame := some (.stackTop kernel.current)
          savedFrameKind := .interrupt
          frame := user.words
          state := .running })
  | waited {kernel : Kernel} {parent : ProcId} {user : UserState} {answers : Answers}
      {target : ℤ} {userStatus options : Word}
      (hevent : event = .syscall user answers)
      (hcall : user.syscallFrame.syscall = .wait4 target userStatus options)
      (hblocks : options &&& PROCESS_WNOHANG = 0)
      (hparent : kernel.processCurrent = some parent)
      (hlive : kernel.running.state.live = true) :
      Move event kernel (kernel.waitBlocked parent target userStatus)
  | waitEnded {kernel : Kernel} {parent : ProcId}
      (hevent : ∃ answers, event = .yield answers)
      (hparent : kernel.processCurrent = some parent)
      (hlive : kernel.running.state.live = true) :
      Move event kernel (kernel.awakened parent)
  | futexBlocked {kernel : Kernel} {user : UserState} {answers : Answers}
      {userAddress operation : Word} {value : BitVec 32} {userTimeout : Word}
      (hevent : event = .syscall user answers)
      (hcall : user.syscallFrame.syscall = .futex userAddress operation value userTimeout)
      (hwait : operation &&& 0x7f = 0)
      (hring : kernel.running.privilegeRing = 3)
      (hlive : kernel.running.state.live = true) (waiters : Fin 256 → FutexWaiter) :
      Move event kernel (kernel.futexBlocked waiters)
  | futexEnded {kernel : Kernel} (waiting : Bool) (result : Word)
      (hlive : kernel.running.state.live = true)
      (hwaiting : waiting = kernel.running.futexWaiting)
      (hfree : waiting = true → ∀ i, (kernel.futexWaiters i).active = true →
        (kernel.futexWaiters i).thread ≠ kernel.current) :
      Move event kernel (kernel.setThread kernel.current
        { kernel.running with
          futexWaiting := waiting
          futexResult := result
          state := .running })
  | keyed {kernel : Kernel} {thread : ThreadId}
      (hblocked : (kernel.threads thread).state = .blocked)
      (hwaiter : kernel.inputWaiter = some thread) :
      Move event kernel
        { kernel.setThread thread { kernel.threads thread with state := .ready } with
          inputWaiter := none }
  | terminalBlocked {kernel : Kernel} {more : Bool} (hevent : event = .getchar more)
      (hlive : kernel.running.state.live = true) :
      Move event kernel kernel.terminalBlocked
  | terminalResumed (kernel : Kernel) :
      Move event kernel (kernel.setThread kernel.current
        { kernel.running with privilegeRing := kernel.running.userRing })
  | framed (kernel : Kernel) (words : Stack Word) :
      Move event kernel (kernel.setThread kernel.current { kernel.running with frame := words })

inductive Switch : Kernel → Kernel → Prop
  | deactivated (kernel : Kernel) : Switch kernel kernel.deactivate
  | readied {kernel : Kernel} (hrunning : kernel.running.state = .running) :
      Switch kernel (kernel.setThread kernel.current { kernel.running with state := .ready })
  | activated {kernel : Kernel} {next : ThreadId}
      (hready : (kernel.threads next).state = .ready) :
      Switch kernel (kernel.activateThread next)
  | stored (kernel : Kernel) (old : ThreadId) (site : YieldSite) :
      Switch kernel (kernel.setThread old { kernel.threads old with savedContext := some site })
  | materialized (kernel : Kernel) : Switch kernel kernel.materializeFrame

theorem Move.sched (h : Move event before after) : SchedStep before after := by
  cases h with
  | outside hthreads hprocesses _ hpid htid => exact .of_tables hthreads hprocesses hpid htid
  | futex hstep => exact hstep.sched
  | reported answers _ => exact wakeParentWaiter_sched answers _ _
  | reapTaken => exact .setProcess rfl
  | entered => exact .setThread rfl rfl Iff.rfl
  | interrupted _ hlive => exact .ofRunning rfl (fun _ => rfl) rfl rfl rfl hlive rfl
  | waited _ _ _ _ hlive =>
    exact .ofRunning rfl (SchedStep.withoutWait_update rfl rfl) rfl rfl rfl hlive rfl
  | waitEnded _ _ hlive =>
    exact .ofRunning rfl (SchedStep.withoutWait_update rfl rfl) rfl rfl rfl hlive rfl
  | futexBlocked _ _ _ _ hlive => exact .ofRunning rfl (fun _ => rfl) rfl rfl rfl hlive rfl
  | futexEnded _ _ hlive => exact .ofRunning rfl (fun _ => rfl) rfl rfl rfl hlive rfl
  | keyed hblocked =>
    refine .ofThread rfl rfl rfl rfl rfl ?_ ?_
    · simp [hblocked, ThreadState.live]
    · simp [hblocked]
  | terminalBlocked _ hlive => exact .ofRunning rfl (fun _ => rfl) rfl rfl rfl hlive rfl
  | terminalResumed | framed => exact .setThread rfl rfl Iff.rfl

theorem Switch.sched (h : Switch before after) : SchedStep before after := by
  cases h with
  | deactivated => exact deactivate_sched before
  | readied hrunning =>
    exact .ofRunning rfl (fun _ => rfl) rfl rfl rfl (by rw [hrunning]; rfl) rfl
  | activated hready => exact activateThread_sched hready
  | stored => exact .setThread rfl rfl Iff.rfl
  | materialized => exact materializeFrame_sched before

theorem Move.mode (kernel : Kernel) (mode : Mode) :
    Move event kernel { kernel with mode := mode } :=
  .outside rfl rfl rfl rfl rfl rfl (.inl rfl)

theorem Move.clock (kernel : Kernel) (ticks : Word) (pending : Bool) :
    Move event kernel { kernel with timerTicks := ticks, reschedulePending := pending } :=
  .outside rfl rfl rfl rfl rfl rfl (.inl rfl)

/-! ## The kernel's own threads -/

/-- The thread is in ring 0 and has no other ring to go back to. -/
def InKernel (slot : ThreadSlot) : Prop :=
  slot.privilegeRing = 0 ∧ slot.userRing = 0

theorem inKernel_setThread
    (hslot : InKernel (kernel.threads thread) → InKernel slot) (other : ThreadId)
    (h : InKernel (kernel.threads other)) :
    InKernel ((kernel.setThread thread slot).threads other) := by
  rw [setThread_threads]
  split
  next heq =>
    subst heq
    exact hslot h
  · exact h

theorem Move.inKernel (h : Move event before after)
    (thread : ThreadId) (hthread : InKernel (before.threads thread)) :
    InKernel (after.threads thread) := by
  cases h with
  | outside hthreads =>
    rw [hthreads]
    exact hthread
  | futex hstep =>
    have hring := hstep.field (fun slot => (slot.privilegeRing, slot.userRing))
      (fun _ _ => rfl) thread
    simp only [Prod.mk.injEq] at hring
    unfold InKernel
    rw [hring.1, hring.2]
    exact hthread
  | reported answers =>
    rcases wakeParentWaiter_cases answers before _ with hsame | ⟨parent, waiter, stored, -, heq⟩
    · rw [hsame]
      exact hthread
    rw [heq]
    have hready : ∀ record : ProcessSlot, InKernel (((before.setProcess parent record).setThread
        waiter { before.threads waiter with state := .ready }).threads thread) := by
      intro record
      refine inKernel_setThread ?_ thread hthread
      exact id
    unfold Kernel.reported writeFrame
    dsimp only
    split
    · refine inKernel_setThread ?_ thread (hready _)
      exact id
    · exact hready _
  | reapTaken => exact hthread
  | entered | interrupted | waited | waitEnded | futexBlocked | futexEnded | keyed | framed =>
    refine inKernel_setThread ?_ thread hthread
    exact id
  | terminalBlocked =>
    refine inKernel_setThread ?_ thread hthread
    intro hring
    exact ⟨rfl, hring.1⟩
  | terminalResumed =>
    refine inKernel_setThread ?_ thread hthread
    intro hring
    exact ⟨hring.2, hring.2⟩

theorem Switch.inKernel (h : Switch before after)
    (thread : ThreadId) (hthread : InKernel (before.threads thread)) :
    InKernel (after.threads thread) := by
  cases h with
  | deactivated | readied | stored =>
    refine inKernel_setThread ?_ thread hthread
    exact id
  | activated =>
    refine activateThread_cases (InKernel <| ·.threads thread) hthread ?_
    refine inKernel_setThread ?_ thread hthread
    exact id
  | materialized =>
    refine materializeFrame_cases (InKernel <| ·.threads thread) hthread fun _ => ?_
    refine inKernel_setThread ?_ thread hthread
    exact id

end Kernel

end NPKernel
