import NPKernel.ThreadSwitches

/-!
# The running thread

A call that returns to user mode leaves the running thread running; every other
way into user mode activates a thread first.  So the state of the current thread
is determined by what the CPU does, and with that every event is a sequence of
the elementary changes.
-/

namespace NPKernel

open RegisterStack GuardedRuns

variable {before after kernel next last : Kernel} {thread : ThreadId} {slot : ThreadSlot}
  {answers : Answers} {frame : SyscallFrame} {events : List Event}

def Mode.leaving : Mode → Bool
  | .yielding .exit | .halted | .lost => true
  | _ => false

def Mode.plain : Mode → Bool
  | .terminal | .yielding .terminal | .yielding .wait4 => false
  | _ => true

namespace Kernel

def RunningLive (kernel : Kernel) : Prop :=
  kernel.mode.leaving = false → kernel.running.state.live = true

theorem RunningLive.yielding (h : kernel.RunningLive) {site : YieldSite}
    (hmode : kernel.mode = .yielding site) (hsite : site ≠ .exit) :
    kernel.running.state.live = true := by
  apply h
  rw [hmode]
  cases site <;> first | rfl | exact absurd rfl hsite

theorem reapProcess_stays (answers : Answers) (kernel : Kernel) (process : ProcId) :
    Stays kernel (kernel.reapProcess process) := by
  have hquiet : QuietChanges (.yield answers) kernel (kernel.reapProcess process) :=
    reapProcess_quiet process (.inr (.inl ⟨_, rfl⟩))
  exact hquiet.stays

theorem processReapPending_running (kernel : Kernel) :
    kernel.processReapPending.running = kernel.running := by
  fun_cases processReapPending kernel with
  | case4 => exact (reapProcess_running _ _).2
  | _ => rfl

theorem enterSyscall_running (kernel : Kernel) (frame : SyscallFrame) :
    (kernel.enterSyscall frame).running =
      { kernel.running with
        savedInterruptFrame := some (.stackTop kernel.current)
        savedFrameKind := .syscall
        frame := frame.raw } := by
  unfold enterSyscall
  rw [processReapPending_running]
  simp [running]

theorem enterSyscall_fields (kernel : Kernel) (frame : SyscallFrame) :
    (kernel.enterSyscall frame).current = kernel.current ∧
      (kernel.enterSyscall frame).mode = kernel.mode := by
  have hquiet : QuietChanges .wake _ (kernel.enterSyscall frame) := processReapPending_quiet _
  exact ⟨hquiet.stays.current, hquiet.stays.mode⟩

theorem enterSyscall_state (kernel : Kernel) (frame : SyscallFrame) :
    (kernel.enterSyscall frame).running.state = kernel.running.state := by
  rw [enterSyscall_running]

theorem setProcess_alive {process other : ProcId} {slot : ProcessSlot}
    (hslot : slot.alive = (kernel.processes process).alive)
    (halive : (kernel.processes other).alive = true) :
    ((kernel.setProcess process slot).processes other).alive = true := by
  rw [setProcess_processes]
  split
  next h =>
    rw [hslot, ← h]
    exact halive
  · exact halive

theorem reapProcess_alive {process other : ProcId}
    (halive : (kernel.processes other).alive = true) :
    ((kernel.reapProcess process).processes other).alive = true := by
  unfold reapProcess
  split
  · exact halive
  next h =>
  have hne : other ≠ process := by
    rintro rfl
    exact h (.inr (.inl halive))
  simpa [hne] using halive

theorem enterSyscall_alive (frame : SyscallFrame) {process : ProcId}
    (halive : (kernel.processes process).alive = true) :
    ((kernel.enterSyscall frame).processes process).alive = true := by
  unfold enterSyscall
  fun_cases processReapPending with
  | case1 | case2 => exact halive
  | case4 => exact reapProcess_alive (setProcess_alive rfl halive)
  | case3 | case5 => exact setProcess_alive rfl halive

theorem deliverPendingSignal_stays {delivered : Kernel} {frame words : Stack Word}
    (h : kernel.deliverPendingSignal answers frame = (delivered, some words)) :
    Stays kernel delivered := by
  obtain ⟨last, hquiet, ⟨_, heq⟩ | ⟨_, heq⟩⟩ :=
    deliverPendingSignal_cases .wake answers kernel frame
  · rw [heq] at h
    cases h
    exact hquiet.stays
  · rw [heq] at h
    cases h

def Exited (kernel : Kernel) : Prop :=
  ∃ answers before status, ∃ after ∈ [processExitCurrent answers before status,
      processExitThreadCurrent answers before status],
    kernel.threads = after.threads ∧ kernel.processes = after.processes ∧
      kernel.current = after.current

theorem terminateBySignal_exited (answers : Answers) (kernel : Kernel) (signal : Word) :
    (terminateBySignal answers kernel signal).Exited :=
  ⟨answers, kernel, _, _, List.mem_cons_self, rfl, rfl, rfl⟩

theorem deliverPendingSignal_terminated {terminated : Kernel} {frame : Stack Word}
    (h : kernel.deliverPendingSignal answers frame = (terminated, none)) :
    terminated.mode = .yielding .exit ∧ terminated.Exited := by
  obtain ⟨_, -, ⟨_, heq⟩ | ⟨_, heq⟩⟩ :=
    deliverPendingSignal_cases .wake answers kernel frame
  · rw [heq] at h
    cases h
  · rw [heq] at h
    cases h
    exact ⟨rfl, terminateBySignal_exited answers _ _⟩

/-! ## Exec -/

/-- An exec fails without effect, or it changes the slot of its caller and makes
the main thread, if there is one, the running one. -/
theorem processExecCurrent_cases (answers : Answers) (kernel : Kernel) :
    ((kernel.processExecCurrent answers).1 ≠ 0 ∧ (kernel.processExecCurrent answers).2 = kernel) ∨
      ∃ process staged, kernel.processCurrent = some process ∧
        kernel.running.privilegeRing = 3 ∧ answers.stageExecImage = some staged ∧
        (((kernel.processes process).alive = true →
              (kernel.processes process).mainThread = none) ∧
            (kernel.processExecCurrent answers).2 = kernel.execCaller process staged ∨
          ∃ main, (kernel.processes process).alive = true ∧
            (kernel.processes process).mainThread = some main ∧
            (kernel.processExecCurrent answers).2 =
              (kernel.execCaller process staged).madeCurrent main) := by
  unfold processExecCurrent
  split
  · exact .inl ⟨(by decide : -PROCESS_EFAULT ≠ 0), rfl⟩
  next process hprocess =>
  split
  · exact .inl ⟨(by decide : -PROCESS_EFAULT ≠ 0), rfl⟩
  next hring =>
  split
  · exact .inl ⟨(by decide : -PROCESS_EINVAL ≠ 0), rfl⟩
  next staged hstaged =>
  refine .inr ⟨process, staged, hprocess, not_not.mp hring, hstaged, ?_⟩
  have hslot : ((kernel.execCaller process staged).processes process).alive =
        (kernel.processes process).alive ∧
      ((kernel.execCaller process staged).processes process).mainThread =
        (kernel.processes process).mainThread := by
    simp [execCaller]
  unfold processActivate
  dsimp only
  rw [hslot.1, hslot.2]
  cases halive : (kernel.processes process).alive with
  | false => exact .inl ⟨by rintro ⟨⟩, rfl⟩
  | true =>
    cases hmain : (kernel.processes process).mainThread with
    | none => exact .inl ⟨fun _ => rfl, rfl⟩
    | some main => exact .inr ⟨main, rfl, rfl, rfl⟩

theorem processExecCurrent_thread (answers : Answers) (kernel : Kernel) (thread : ThreadId) :
    ∃ slot, (slot = kernel.threads thread ∨
        thread = kernel.current ∧ ∃ staged, slot = execThread (kernel.threads thread) staged) ∧
      ((kernel.processExecCurrent answers).2.threads thread = slot ∨
        thread = (kernel.processExecCurrent answers).2.current ∧
          (kernel.processExecCurrent answers).2.threads thread =
            { slot with state := .running }) := by
  rcases processExecCurrent_cases answers kernel with ⟨-, hsame⟩ | ⟨process, staged, -, -, -, hexec⟩
  · exact ⟨_, .inl rfl, .inl (by rw [hsame])⟩
  refine ⟨(kernel.execCaller process staged).threads thread, ?_, ?_⟩
  · rw [execCaller, setThread_threads]
    split
    next heq =>
      subst heq
      exact .inr ⟨rfl, staged, rfl⟩
    · exact .inl rfl
  · rcases hexec with ⟨-, heq⟩ | ⟨main, -, -, heq⟩
    · exact .inl (by rw [heq])
    · rw [heq]
      dsimp only
      rw [setThread_threads]
      split
      next hmain => exact .inr ⟨hmain, by rw [hmain]⟩
      · exact .inl rfl

/-- The fields that an exec changes in a thread are not the ones that `view`
reads. -/
theorem processExecCurrent_field (answers : Answers) (kernel : Kernel) {α : Type*}
    (view : ThreadSlot → α) (hexec : ∀ slot staged, view (execThread slot staged) = view slot)
    (hstate : ∀ (slot : ThreadSlot) state, view { slot with state := state } = view slot)
    (thread : ThreadId) :
    view ((kernel.processExecCurrent answers).2.threads thread) = view (kernel.threads thread) := by
  obtain ⟨slot, hslot, hthread⟩ := processExecCurrent_thread answers kernel thread
  have hkept : view slot = view (kernel.threads thread) := by
    rcases hslot with rfl | ⟨-, staged, rfl⟩
    · rfl
    · exact hexec _ staged
  rcases hthread with heq | ⟨-, heq⟩
  · rw [heq, hkept]
  · rw [heq, hstate, hkept]

theorem processExecCurrent_state (answers : Answers) (kernel : Kernel) (thread : ThreadId) :
    ((kernel.processExecCurrent answers).2.threads thread).state =
        (kernel.threads thread).state ∨
      ((kernel.processExecCurrent answers).2.threads thread).state = .running := by
  obtain ⟨slot, hslot, heq | ⟨-, heq⟩⟩ := processExecCurrent_thread answers kernel thread
  · rw [heq]
    rcases hslot with rfl | ⟨-, staged, rfl⟩
    · exact .inl rfl
    · exact .inl rfl
  · rw [heq]
    exact .inr rfl

theorem processExecCurrent_fields (answers : Answers) (kernel : Kernel) :
    (kernel.processExecCurrent answers).2.nextPid = kernel.nextPid ∧
      (kernel.processExecCurrent answers).2.nextTid = kernel.nextTid ∧
      (kernel.processExecCurrent answers).2.mode = kernel.mode := by
  rcases processExecCurrent_cases answers kernel with ⟨-, heq⟩ |
    ⟨process, staged, -, -, -, ⟨-, heq⟩ | ⟨main, -, -, heq⟩⟩ <;>
  · rw [heq]
    exact ⟨rfl, rfl, rfl⟩

theorem processExecCurrent_processField (answers : Answers) (kernel : Kernel) {α : Type*}
    (view : ProcessSlot → α) (hview : ∀ (slot : ProcessSlot) root actions,
      view { slot with addressSpaceRoot := root, signalActions := actions } = view slot)
    (process : ProcId) :
    view ((kernel.processExecCurrent answers).2.processes process) =
      view (kernel.processes process) := by
  have hcaller : ∀ caller staged, view ((kernel.execCaller caller staged).processes process) =
      view (kernel.processes process) := by
    intro caller staged
    rw [execCaller, setThread_processes, setProcess_processes]
    split
    next heq =>
      subst heq
      exact hview _ _ _
    · rfl
  rcases processExecCurrent_cases answers kernel with ⟨-, heq⟩ |
    ⟨caller, staged, -, -, -, ⟨-, heq⟩ | ⟨main, -, -, heq⟩⟩
  · rw [heq]
  · rw [heq, hcaller]
  · rw [heq]
    exact hcaller caller staged

/-! ## What a call leaves behind -/

inductive Dispatched (answers : Answers) (frame : SyscallFrame) (kernel : Kernel) : Kernel → Prop
  | returned {after : Kernel} (hstays : Stays kernel after) :
      Dispatched answers frame kernel after
  | slept {masked : Kernel} (hstays : Stays kernel masked) (mask : Option Word) :
      Dispatched answers frame kernel { masked with mode := .sleeping mask }
  | reading (hcall : frame.syscall = .read) :
      Dispatched answers frame kernel { kernel with mode := .terminal }
  | yielded (hcall : frame.syscall = .schedYield) :
      Dispatched answers frame kernel { kernel with mode := .yielding .schedYield }
  | waited {parent : ProcId} {target : ℤ} {userStatus options : Word}
      (hcall : frame.syscall = .wait4 target userStatus options)
      (hparent : kernel.processCurrent = some parent)
      (hring : kernel.running.privilegeRing = 3)
      (hnone : kernel.exitedChild parent target = none) :
      Dispatched answers frame kernel (kernel.waitBlocked parent target userStatus)
  | futexBlocked {userAddress operation : Word} {value : BitVec 32} {userTimeout : Word}
      {waiters : Fin 256 → FutexWaiter}
      (hcall : frame.syscall = .futex userAddress operation value userTimeout)
      (hring : kernel.running.privilegeRing = 3) :
      Dispatched answers frame kernel (kernel.futexBlocked waiters)
  | ended {after : Kernel} (hexited : after.mode = .yielding .exit ∧ after.Exited) :
      Dispatched answers frame kernel after
  | execed (hcall : frame.syscall = .execve) :
      Dispatched answers frame kernel (kernel.processExecCurrent answers).2

theorem Dispatched.quiet {user : UserState}
    (h : QuietChanges (.syscall user answers) kernel after) :
    Dispatched answers user.syscallFrame kernel after :=
  .returned h.stays

theorem returnDelivering_dispatched (result : Word) {user : UserState}
    (words : SyscallFrame) (h : QuietChanges (.syscall user answers) before kernel) :
    Dispatched answers user.syscallFrame before
      (returnDelivering answers result kernel words).kernel := by
  unfold returnDelivering
  split
  next heq => exact .returned (h.stays.trans (deliverPendingSignal_stays heq))
  next heq => exact .ended (deliverPendingSignal_terminated heq)

theorem returnSignalCall_dispatched {call : Word × Kernel} {user : UserState}
    (h : QuietChanges (.syscall user answers) kernel call.2) :
    Dispatched answers user.syscallFrame kernel
      (returnSignalCall answers call user.syscallFrame).kernel := by
  unfold returnSignalCall
  split
  · exact returnDelivering_dispatched _ _ h
  · exact .quiet h

theorem processWait4_dispatched (answers : Answers) (kernel : Kernel)
    {target : ℤ} {userStatus options : Word}
    (hcall : frame.syscall = .wait4 target userStatus options) :
    Dispatched answers frame kernel
      (kernel.processWait4 answers target userStatus options).kernel := by
  rcases processWait4_cases answers kernel target userStatus options with
    ⟨parent, ⟨hparent, hring, -, hnone⟩, heq⟩ | heq | ⟨child, heq⟩
  · rw [heq]
    exact .waited hcall hparent hring hnone
  · rw [heq]
    exact .returned (.refl kernel)
  · rw [heq]
    exact .returned (reapProcess_stays answers kernel child)

theorem sysFutex_dispatched (answers : Answers) (kernel : Kernel)
    {userAddress operation : Word} {value : BitVec 32} {userTimeout : Word}
    (hcall : frame.syscall = .futex userAddress operation value userTimeout) :
    Dispatched answers frame kernel
      (kernel.sysFutex answers userAddress operation value userTimeout).kernel := by
  rcases sysFutex_cases answers kernel userAddress operation value userTimeout with
    ⟨waiters, ⟨-, hring⟩, heq⟩ | hstep
  · rw [heq]
    exact .futexBlocked hcall hring
  · exact .returned (.of_futex hstep)

theorem syscallDispatch_dispatched (answers : Answers) (user : UserState)
    (hlive : kernel.running.state.live = true) :
    Dispatched answers user.syscallFrame kernel
      (syscallDispatch answers kernel user.syscallFrame).kernel := by
  have hevent : Event.syscall user answers = .syscall user answers := rfl
  unfold syscallDispatch
  cases hcall : user.syscallFrame.syscall with
  | read =>
    dsimp only
    split
    · exact .reading hcall
    · exact .returned (.refl kernel)
  | sleep =>
    dsimp only
    split
    · exact .slept (.refl kernel) none
    · exact .returned (.refl kernel)
  | ppoll userSigmask sigsetSize =>
    dsimp only
    split
    · exact .returned (.refl kernel)
    next masked mask hmasked =>
    have hquiet : QuietChanges (.syscall user answers) kernel masked := sysPpoll_quiet hmasked
    split
    · exact .slept hquiet.stays mask
    · exact .quiet (hquiet.trans (sysPpollTail_quiet _ _))
  | schedYield => exact .yielded hcall
  | rtSigaction => exact .quiet (sysRtSigaction_quiet kernel hevent hcall)
  | rtSigprocmask =>
    exact returnSignalCall_dispatched (sysRtSigprocmask_quiet answers kernel _ _ _ _)
  | rtSigreturn =>
    have hquiet : QuietChanges (.syscall user answers) kernel _ :=
      sysRtSigreturn_quiet answers kernel user.syscallFrame
    dsimp only
    split
    · exact .quiet hquiet
    · exact returnDelivering_dispatched _ _ hquiet
  | clone => exact .quiet (processClone_quiet kernel hevent hcall hlive)
  | fork => exact .quiet (processFork_quiet kernel hevent hcall)
  | execve => exact .execed hcall
  | exit status =>
    exact .ended ⟨rfl, answers, kernel, status, _, List.mem_cons_of_mem _ List.mem_cons_self,
      rfl, rfl, rfl⟩
  | exitGroup status =>
    exact .ended ⟨rfl, answers, kernel, status, _, List.mem_cons_self, rfl, rfl, rfl⟩
  | wait4 => exact processWait4_dispatched answers kernel hcall
  | kill =>
    refine returnSignalCall_dispatched (processSendSignalInfo_quiet kernel _ _ ?_)
    rintro record ⟨⟩
  | rtSigqueueinfo =>
    exact returnSignalCall_dispatched (sysRtSigqueueinfo_quiet kernel hevent hcall)
  | archPrctl => exact .quiet (sysArchPrctl_quiet answers kernel _ _)
  | futex => exact sysFutex_dispatched answers kernel hcall
  | setTidAddress => exact .quiet (processSetTidAddress_quiet kernel hevent hcall)
  | tgkill =>
    refine returnSignalCall_dispatched (processSendThreadSignalInfo_quiet kernel _ _ _ ?_)
    rintro record ⟨⟩
  | rtTgsigqueueinfo =>
    exact returnSignalCall_dispatched (sysRtTgsigqueueinfo_quiet kernel hevent hcall)
  | other => exact .returned (.refl kernel)

/-! ## The state of the current thread -/

def PositionedAt (kernel : Kernel) : YieldSite → Prop
  | .wait4 => kernel.running.state = .blocked ∧ kernel.processCurrent ≠ none
  | .futex => kernel.running.state = .blocked
  | .terminal => kernel.running.state = .blocked ∧ kernel.inputQueued = 0
  | .schedYield | .idle => kernel.running.state = .running
  | .exit => kernel.Exited

def PositionedIn (kernel : Kernel) : Mode → Prop
  | .user | .sleeping _ | .idle => kernel.running.state = .running
  | .yielding site => kernel.PositionedAt site
  | .terminal => kernel.running.state = .running ∨ kernel.PositionedAt .terminal
  | .halted | .lost => True

def Positioned (kernel : Kernel) : Prop :=
  kernel.PositionedIn kernel.mode

namespace Positioned

theorem of_mode {mode : Mode} (hmode : kernel.mode = mode)
    (h : kernel.PositionedIn mode) : kernel.Positioned := by
  unfold Positioned
  rw [hmode]
  exact h

theorem at_mode {mode : Mode} (h : kernel.Positioned)
    (hmode : kernel.mode = mode) : kernel.PositionedIn mode := by
  rw [← hmode]
  exact h

theorem runningLive (h : kernel.Positioned) : kernel.RunningLive := by
  unfold RunningLive
  cases hmode : kernel.mode with
  | user | sleeping | idle =>
    intro _
    exact congrArg ThreadState.live (h.at_mode hmode)
  | terminal =>
    intro _
    rcases h.at_mode hmode with hstate | ⟨hstate, -⟩ <;> exact congrArg ThreadState.live hstate
  | yielding site =>
    have hsite := h.at_mode hmode
    intro hleaving
    cases site with
    | wait4 | terminal => exact congrArg ThreadState.live hsite.1
    | futex | schedYield | idle => exact congrArg ThreadState.live hsite
    | exit => cases hleaving
  | halted | lost =>
    intro hleaving
    cases hleaving

theorem launched (root entry stack : Word) : (NPKernel.launched root entry stack).Positioned :=
  .of_mode rfl rfl

end Positioned

/-- The CPU does not look for a key, and the thread does not wait for a child. -/
structure Placed (kernel : Kernel) : Prop where
  positioned : kernel.Positioned
  plain : kernel.mode.plain = true

theorem Placed.of_mode {mode : Mode} (hmode : kernel.mode = mode) (h : kernel.PositionedIn mode)
    (hplain : mode.plain = true) : kernel.Placed :=
  ⟨.of_mode hmode h, hmode ▸ hplain⟩

theorem Placed.of_ended (h : kernel.mode = .yielding .exit ∧ kernel.Exited) : kernel.Placed :=
  .of_mode h.1 h.2 rfl

theorem running_of_update (kernel : Kernel)
    (hthreads : after.threads = Function.update kernel.threads kernel.current slot)
    (hcurrent : after.current = kernel.current) : after.running = slot := by
  rw [running, hthreads, hcurrent, Function.update_self]

theorem state_of_update {state : ThreadState}
    (hthreads : after.threads = Function.update kernel.threads kernel.current slot)
    (hcurrent : after.current = kernel.current) (hslot : slot.state = state) :
    after.running.state = state := by
  rw [running_of_update kernel hthreads hcurrent, hslot]

theorem owner_of_update {owner : Option ProcId}
    (hthreads : after.threads = Function.update kernel.threads kernel.current slot)
    (hcurrent : after.current = kernel.current) (hslot : slot.owner = owner) :
    after.processCurrent = owner := by
  rw [processCurrent, running_of_update kernel hthreads hcurrent, hslot]

theorem Stays.placed (h : Stays before after)
    (hrunning : before.running.state = .running) (hmode : before.mode = .user) : after.Placed :=
  .of_mode (h.mode.trans hmode) (h.state hrunning) rfl

theorem processExecCurrent_positioned (answers : Answers)
    (hrunning : kernel.running.state = .running) (hmode : kernel.mode = .user) :
    (kernel.processExecCurrent answers).2.Positioned := by
  refine .of_mode ((processExecCurrent_fields answers kernel).2.2.trans hmode) ?_
  rcases processExecCurrent_cases answers kernel with ⟨-, heq⟩ |
    ⟨process, staged, -, -, -, ⟨-, heq⟩ | ⟨main, -, -, heq⟩⟩
  · rw [heq]
    exact hrunning
  · rw [heq]
    exact state_of_update rfl rfl hrunning
  · rw [heq]
    simp [PositionedIn, running]

theorem Dispatched.positioned
    (h : Dispatched answers frame kernel after) (hrunning : kernel.running.state = .running)
    (hmode : kernel.mode = .user) : after.Positioned := by
  cases h with
  | returned hstays => exact (hstays.placed hrunning hmode).positioned
  | slept hstays mask =>
    have hstate := hstays.state hrunning
    exact .of_mode rfl hstate
  | reading => exact .of_mode rfl (.inl hrunning)
  | yielded => exact .of_mode rfl hrunning
  | waited _ hparent =>
    refine .of_mode rfl ⟨state_of_update rfl rfl rfl, ?_⟩
    exact Option.ne_none_iff_exists'.mpr ⟨_, owner_of_update rfl rfl hparent⟩
  | futexBlocked => exact .of_mode rfl (state_of_update rfl rfl rfl)
  | ended hended => exact (Placed.of_ended hended).positioned
  | execed => exact processExecCurrent_positioned answers hrunning hmode

theorem raiseException_placed (answers : Answers) (frame : Stack Word)
    (signal : Word) (hrunning : kernel.running.state = .running) (hmode : kernel.mode = .user) :
    (kernel.raiseException answers frame signal).Placed := by
  rcases raiseException_cases answers kernel frame signal with heq | ⟨_, _, -, heq⟩
  · rw [heq]
    exact .of_ended ⟨rfl, terminateBySignal_exited answers kernel signal⟩
  · rw [heq]
    exact Stays.placed (.setThread fun _ _ => rfl) hrunning hmode

/-! ## The scheduler -/

theorem processWait4Tail_running (answers : Answers)
    (h : kernel.running.state = .running ∨ kernel.processCurrent ≠ none) :
    (processWait4Tail answers kernel).2.running.state = .running := by
  rcases processWait4Tail_cases answers kernel with ⟨hnone, heq⟩ | ⟨parent, -, hcases⟩
  · rw [heq]
    exact h.resolve_right (absurd hnone)
  have hawake : (kernel.awakened parent).running.state = .running :=
    state_of_update rfl rfl rfl
  rcases hcases with heq | ⟨child, heq⟩
  · rw [heq]
    exact hawake
  · rw [heq, (reapProcess_running _ _).2]
    exact hawake

theorem processFutexWaitTail_running (kernel : Kernel) :
    kernel.processFutexWaitTail.2.running.state = .running := by
  unfold processFutexWaitTail
  split <;> exact state_of_update rfl rfl rfl

theorem deliverPendingSignal_placed (answers : Answers)
    (frame : Stack Word) (hrunning : kernel.running.state = .running)
    (hmode : kernel.mode = .user) :
    (kernel.deliverPendingSignal answers frame).1.Placed := by
  rcases hdelivered : kernel.deliverPendingSignal answers frame with ⟨after, words⟩
  cases words with
  | some words => exact (deliverPendingSignal_stays hdelivered).placed hrunning hmode
  | none => exact .of_ended (deliverPendingSignal_terminated hdelivered)

theorem returnFrom_placed (answers : Answers) {site : YieldSite} (hsite : site ≠ .terminal)
    (h : kernel.running.state = .running ∨ kernel.PositionedAt site) :
    (returnFrom answers kernel site).Placed := by
  cases site with
  | wait4 =>
    have hstate := processWait4Tail_running answers (h.imp_right And.right)
    exact .of_mode rfl hstate rfl
  | futex =>
    have hstate := processFutexWaitTail_running kernel
    unfold returnFrom
    dsimp only
    split
    · exact deliverPendingSignal_placed answers _ hstate rfl
    · exact .of_mode rfl hstate rfl
  | terminal => exact absurd rfl hsite
  | schedYield | idle => exact .of_mode rfl (h.elim id id) rfl
  | exit => exact .of_mode rfl trivial rfl

theorem returnFrom_positioned (answers : Answers) {site : YieldSite}
    (h : kernel.running.state = .running ∨ kernel.PositionedAt site) :
    (returnFrom answers kernel site).Positioned := by
  by_cases hsite : site = .terminal
  · subst hsite
    refine .of_mode rfl ?_
    rcases h with h | h
    · exact .inl (state_of_update rfl rfl h)
    · exact .inr ⟨state_of_update rfl rfl h.1, h.2⟩
  · exact (returnFrom_placed answers hsite h).positioned

theorem resumeFrame_placed (answers : Answers) (frame : FramePtr)
    (hrunning : kernel.running.state = .running) :
    (resumeFrame answers kernel frame).Placed := by
  unfold resumeFrame
  dsimp only
  split
  · split
    next delivered words heq =>
      have hstate := (deliverPendingSignal_stays heq).state hrunning
      exact .of_mode rfl (state_of_update rfl rfl hstate) rfl
    next heq => exact .of_ended (deliverPendingSignal_terminated heq)
  · split
    · exact .of_mode rfl hrunning rfl
    · exact .of_mode rfl trivial rfl

theorem materializeFrame_mode (kernel : Kernel) : kernel.materializeFrame.mode = kernel.mode :=
  materializeFrame_cases (·.mode = _) rfl fun _ => rfl

theorem goOn_placed (answers : Answers) {continuation : Continuation}
    (hcontinuation : continuation ≠ .context (some .terminal))
    (hrunning : kernel.running.state = .running) : (goOn answers kernel continuation).Placed := by
  cases continuation with
  | context stored =>
    cases stored with
    | some site =>
      refine returnFrom_placed answers ?_ (.inl hrunning)
      rintro rfl
      exact hcontinuation rfl
    | none =>
      dsimp only [goOn]
      split
      · exact .of_mode rfl hrunning rfl
      · exact .of_mode rfl trivial rfl
  | frame pointer => exact resumeFrame_placed answers pointer hrunning

theorem goOn_positioned (answers : Answers) (continuation : Continuation)
    (hrunning : kernel.running.state = .running) :
    (goOn answers kernel continuation).Positioned := by
  by_cases hcontinuation : continuation = .context (some .terminal)
  · rw [hcontinuation, goOn]
    exact returnFrom_positioned answers (.inl hrunning)
  · exact (goOn_placed answers hcontinuation hrunning).positioned

theorem schedulerYield_positioned (answers : Answers) {site : YieldSite}
    (h : kernel.PositionedAt site) : (schedulerYield answers kernel site).Positioned := by
  by_cases hreturns : ∃ next, kernel.YieldsTo next
  · obtain ⟨next, hyields⟩ := hreturns
    obtain ⟨saved, kind, heq⟩ := switchedTo_running site hyields
    rw [schedulerYield_goesOn site hyields]
    exact goOn_positioned answers _ (by rw [heq])
  · rw [schedulerYield_returns answers site hreturns]
    exact returnFrom_positioned answers (.inr h)

theorem schedulerPreempt_placed (answers : Answers) (user : UserState)
    (hmode : kernel.mode = .user) : (schedulerPreempt answers kernel user).Placed := by
  have hsaved : (kernel.preempted user).mode = .user :=
    (futexExpireWaiters_step kernel).mode.trans hmode
  cases hnext : kernel.preemptNext user with
  | none =>
    rw [schedulerPreempt_stays answers hnext]
    exact .of_mode hsaved (preempted_running kernel user) rfl
  | some next =>
    have hready : (kernel.preemptedTo user next).materializeFrame.running.state = .running := by
      obtain ⟨saved, kind, heq⟩ := materializeFrame_running (kernel.preemptedTo user next)
      rw [heq, (preemptedTo_running hnext).2.2]
    rw [schedulerPreempt_goesOn hnext]
    split
    · split
      · exact .of_mode rfl trivial rfl
      · exact resumeFrame_placed answers _ hready
    · have hmode : (kernel.preemptedTo user next).materializeFrame.mode = .user := by
        rw [materializeFrame_mode]
        exact activateThread_cases (·.mode = _) hsaved hsaved
      exact .of_mode hmode hready rfl

/-! ## Interrupts in the waiting loops -/

theorem idleLoop_placed (h : kernel.Placed) : kernel.idleLoop.Placed := by
  unfold idleLoop
  split
  next hidle =>
    have hstate := h.positioned.at_mode hidle.1
    exact .of_mode rfl hstate rfl
  · exact h

theorem Positioned.placed (h : kernel.Positioned) (hmode : kernel.mode = .user ∨
      kernel.mode = .idle ∨ ∃ mask, kernel.mode = .sleeping mask) :
    kernel.running.state = .running ∧ ∀ after : Kernel, after.mode = kernel.mode →
      after.running.state = .running → after.Placed := by
  rcases hmode with hmode | hmode | ⟨mask, hmode⟩ <;>
    exact ⟨h.at_mode hmode, fun _ hsame hrunning => .of_mode (hsame.trans hmode) hrunning rfl⟩

theorem kernelTick_placed (h : kernel.Positioned)
    (hmode : kernel.mode = .idle ∨ ∃ mask, kernel.mode = .sleeping mask) :
    kernel.kernelTick.Placed := by
  obtain ⟨hrunning, hplaced⟩ := h.placed (.inr hmode)
  have hexpired := Stays.of_futex
    (futexExpireWaiters_step { kernel with timerTicks := kernel.timerTicks + 1 })
  exact idleLoop_placed (hplaced _ hexpired.mode (hexpired.state hrunning))

theorem enqueueByte_placed (h : kernel.Positioned)
    (hmode : kernel.mode = .user ∨ kernel.mode = .idle ∨ ∃ mask, kernel.mode = .sleeping mask) :
    kernel.enqueueByte.Placed := by
  obtain ⟨hrunning, hplaced⟩ := h.placed hmode
  unfold enqueueByte
  split
  · apply idleLoop_placed
    split
    · unfold schedulerWakeThread
      split
      next waiter _ hblocked =>
        -- the thread that is woken is blocked, and so it is not the current one
        have hother : kernel.current ≠ waiter := by
          rintro rfl
          cases hrunning.symm.trans hblocked
        refine hplaced _ rfl ?_
        rw [running, setThread_current, setThread_threads, if_neg hother]
        exact hrunning
      · exact hplaced _ rfl hrunning
    · exact hplaced _ rfl hrunning
  · exact hplaced _ rfl hrunning

theorem keyboardGetchar_positioned (more : Bool) (h : kernel.Positioned)
    (hmode : kernel.mode = .terminal) : (kernel.keyboardGetchar more).Positioned := by
  unfold keyboardGetchar
  split
  next hqueued =>
    have hrunning : kernel.running.state = .running := by
      rcases h.at_mode hmode with hstate | ⟨-, hempty⟩
      · exact hstate
      · omega
    cases more with
    | true => exact .of_mode rfl (.inl hrunning)
    | false => exact .of_mode rfl hrunning
  next hempty =>
    exact .of_mode rfl ⟨state_of_update rfl rfl rfl, Nat.eq_zero_of_not_pos hempty⟩

/-! ## Events -/

theorem step_positioned {event : Event} (h : kernel.Positioned)
    (hstep : kernel.step event = some next) : next.Positioned := by
  cases step_stepped hstep with
  | @syscall user answers hmode =>
    have hrunning := (enterSyscall_state kernel user.syscallFrame).trans (h.at_mode hmode)
    exact (syscallDispatch_dispatched answers user (congrArg ThreadState.live hrunning)).positioned
      hrunning ((enterSyscall_fields kernel _).2.trans hmode)
  | exception hmode => exact (raiseException_placed _ _ _ (h.at_mode hmode) hmode).positioned
  | timer hmode => exact Placed.positioned (schedulerPreempt_placed _ _ hmode)
  | kernelTick hmode => exact (kernelTick_placed h hmode).positioned
  | key hmode => exact (enqueueByte_placed h hmode).positioned
  | getchar hmode => exact keyboardGetchar_positioned _ h hmode
  | @wake mask hmode =>
    have hquiet : QuietChanges .wake kernel _ := sysPpollTail_quiet kernel mask
    have hstate := hquiet.stays.state (h.at_mode hmode)
    exact .of_mode rfl hstate
  | yield hmode => exact schedulerYield_positioned _ (h.at_mode hmode)

/-- Every syscall but exec is a sequence of elementary changes; exec follows the
changes of every syscall entry. -/
theorem step_syscall {user : UserState}
    (h : kernel.Positioned) (hstep : kernel.step (.syscall user answers) = some next) :
    Changes (.syscall user answers) kernel next ∨
      (kernel.mode = .user ∧ user.syscallFrame.syscall = .execve ∧
        next = ((kernel.enterSyscall user.syscallFrame).processExecCurrent answers).2) := by
  obtain ⟨hmode⟩ := step_stepped hstep
  by_cases hexec : user.syscallFrame.syscall = .execve
  · refine .inr ⟨hmode, hexec, ?_⟩
    rw [syscallDispatch, hexec]
    rfl
  · have hlive := h.runningLive (by rw [hmode]; rfl)
    exact .inl ((enterSyscall_changes kernel _).trans
      (syscallDispatch_changes _ rfl
        ((congrArg ThreadState.live (enterSyscall_state kernel _)).trans hlive) hexec))

/-- How an event hands the CPU over: not at all, from `scheduler_yield` or
`scheduler_preempt` to a thread that they choose, or in an exec to the main
thread of the process. -/
inductive Handover (event : Event) (kernel next : Kernel) : Prop
  | kept (hchanges : Changes event kernel next)
  | yielded {answers : Answers} {site : YieldSite} {chosen : ThreadId}
      (hevent : event = .yield answers) (hmode : kernel.mode = .yielding site)
      (hnext : kernel.nextRunnable kernel.current = some chosen)
      (hother : chosen ≠ kernel.current)
      (hgone : next = goOn answers (kernel.switchedTo site chosen)
        (kernel.yieldContinuation chosen))
  | preempted {user : UserState} {answers : Answers} {ticked : Kernel} {chosen : ThreadId}
      (hevent : event = .timer user answers) (hmode : kernel.mode = .user)
      (hticked : ticked = { kernel with timerTicks := kernel.timerTicks + 1 })
      (hsaved : Changes event kernel (ticked.preempted user))
      (hnext : ticked.preemptNext user = some chosen)
      (hgone : next = schedulerPreempt answers ticked user)
  | execed {user : UserState} {answers : Answers} (hevent : event = .syscall user answers)
      (hmode : kernel.mode = .user) (hcall : user.syscallFrame.syscall = .execve)
      (hexec : next = ((kernel.enterSyscall user.syscallFrame).processExecCurrent answers).2)

theorem step_handover {event : Event} (hpositioned : kernel.Positioned)
    (hstep : kernel.step event = some next) : Handover event kernel next := by
  have hlive := hpositioned.runningLive
  cases step_stepped hstep with
  | syscall =>
    rcases step_syscall hpositioned hstep with hchanges | ⟨hmode, hcall, hexec⟩
    · exact .kept hchanges
    · exact .execed rfl hmode hcall hexec
  | @exception words vector answers =>
    exact .kept (raiseException_changes answers kernel words (exceptionSignal_catchable vector))
  | @timer user answers hmode =>
    have hticked : Changes (.timer user answers) kernel
        { kernel with timerTicks := kernel.timerTicks + 1 } :=
      .move (.clock _ _ _)
    have hsaved := hticked.trans
      (preempted_changes user ⟨user, answers, rfl⟩ (hlive (by rw [hmode]; rfl)))
    cases hnext : { kernel with timerTicks := kernel.timerTicks + 1 }.preemptNext user with
    | some chosen => exact .preempted rfl hmode rfl hsaved hnext rfl
    | none =>
      rw [schedulerPreempt_stays answers hnext]
      exact .kept (hsaved.tail (.moved (.clock _ _ _)))
  | kernelTick => exact .kept (kernelTick_changes kernel)
  | key => exact .kept (enqueueByte_changes kernel)
  | getchar hmode => exact .kept (keyboardGetchar_changes rfl (hlive (by rw [hmode]; rfl)))
  | wake => exact .kept ((sysPpollTail_quiet kernel _).changes.mode _)
  | @yield answers site hmode =>
    by_cases hreturns : ∃ next, kernel.YieldsTo next
    swap
    · have hpending : Changes (.yield answers) kernel { kernel with reschedulePending := false } :=
        .move (.clock _ _ _)
      rw [schedulerYield_returns answers site hreturns]
      exact .kept (hpending.trans (returnFrom_changes answers _ site
        (fun _ => ⟨answers, rfl⟩) (RunningLive.yielding hlive hmode)))
    · obtain ⟨chosen, hyields⟩ := hreturns
      exact .yielded rfl hmode hyields.1 hyields.2 (schedulerYield_goesOn site hyields answers)

/-- Every event but an exec is a sequence of transitions. -/
theorem step_transitions {event : Event} (h : kernel.Positioned)
    (hstep : kernel.step event = some next) :
    Transitions event kernel next ∨
      ∃ user answers, event = .syscall user answers ∧ kernel.mode = .user ∧
        user.syscallFrame.syscall = .execve ∧
        next = ((kernel.enterSyscall user.syscallFrame).processExecCurrent answers).2 := by
  cases step_handover h hstep with
  | kept hchanges => exact .inl hchanges.transitions
  | @yielded answers site chosen hevent _ hnext hother hgone =>
    have hyields : kernel.YieldsTo chosen := ⟨hnext, hother⟩
    rw [hgone]
    exact .inl ((switchedTo_transitions site hyields).trans
      (goOn_changes site hyields answers _ fun _ => ⟨answers, hevent⟩).transitions)
  | preempted _ _ _ hsaved hnext hgone =>
    rw [hgone]
    exact .inl ((Changes.transitions hsaved).trans ((preemptedTo_transitions hnext).trans
      (Changes.transitions (schedulerPreempt_changes hnext _))))
  | execed hevent hmode hcall hexec => exact .inr ⟨_, _, hevent, hmode, hcall, hexec⟩

theorem Positioned.afterRun (h : kernel.Positioned)
    (hrun : run step kernel events = some last) : last.Positioned := by
  have hguard : Guarded step (fun _ _ => True) kernel events := .of_forall fun _ _ _ => trivial
  exact invariant_run (fun _ _ _ h _ hstep => step_positioned h hstep) h hguard hrun

theorem step_invariant {inv : Kernel → Prop} {kernel next : Kernel} {event : Event}
    (htransition : ∀ before after, inv before → Transition event before after → inv after)
    (hexec : ∀ user answers, event = .syscall user answers →
      user.syscallFrame.syscall = .execve →
      (kernel.enterSyscall user.syscallFrame).running.state.live = true →
      inv (kernel.enterSyscall user.syscallFrame) →
      inv ((kernel.enterSyscall user.syscallFrame).processExecCurrent answers).2)
    (hpositioned : kernel.Positioned) (hinv : inv kernel)
    (hstep : kernel.step event = some next) : inv next := by
  have hlive := hpositioned.runningLive
  have htransitions : ∀ after, Transitions event kernel after → inv after := by
    intro after h
    induction h with
    | refl => exact hinv
    | tail _ hlast ih => exact htransition _ _ ih hlast
  rcases step_transitions hpositioned hstep with h | ⟨user, answers, rfl, hmode, hcall, rfl⟩
  · exact htransitions next h
  · exact hexec user answers rfl hcall
      ((congrArg ThreadState.live (enterSyscall_state kernel _)).trans (hlive (by rw [hmode]; rfl)))
      (htransitions _ (Changes.transitions (enterSyscall_changes kernel _)))

section

variable {inv : Kernel → Prop} {guard : Kernel → Event → Prop} {root entry stack : Word}
  (hinit : inv (NPKernel.launched root entry stack))
  (hguard : Guarded step guard (NPKernel.launched root entry stack) events)
  (hrun : run step (NPKernel.launched root entry stack) events = some last)
include hinit hguard hrun

/-- What guarded events preserve in a state with a positioned thread holds in
every state that a guarded run from the first process reaches. -/
theorem invariant_of_steps (hsteps : ∀ kernel event next, kernel.Positioned → inv kernel →
      guard kernel event → kernel.step event = some next → inv next) : inv last := by
  have hpreserve : ∀ kernel event next, (kernel.Positioned ∧ inv kernel) →
      guard kernel event → kernel.step event = some next → next.Positioned ∧ inv next := by
    rintro kernel event next ⟨hpositioned, hinv⟩ hevent hstep
    exact ⟨step_positioned hpositioned hstep,
      hsteps kernel event next hpositioned hinv hevent hstep⟩
  exact (invariant_run hpreserve ⟨.launched root entry stack, hinit⟩ hguard hrun).2

theorem invariant_of_transitions
    (htransition : ∀ kernel event before after, guard kernel event → inv before →
      Transition event before after → inv after)
    (hexec : ∀ kernel user answers, guard kernel (.syscall user answers) → inv kernel →
      user.syscallFrame.syscall = .execve →
      (kernel.enterSyscall user.syscallFrame).running.state.live = true →
      inv (kernel.enterSyscall user.syscallFrame) →
      inv ((kernel.enterSyscall user.syscallFrame).processExecCurrent answers).2) :
    inv last := by
  refine invariant_of_steps hinit hguard hrun ?_
  intro kernel event next hpositioned hinv hevent hstep
  refine step_invariant (htransition kernel event · · hevent) ?_ hpositioned hinv hstep
  rintro user answers rfl hcall hrunning
  exact hexec kernel user answers hevent hinv hcall hrunning

end

end Kernel

end NPKernel
