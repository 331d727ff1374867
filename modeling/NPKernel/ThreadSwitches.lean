import NPKernel.KernelChanges

/-!
# Changes of the current thread

`scheduler_yield` and `scheduler_preempt` make another thread current and go on
with what is saved of it: the context of the call in which it yielded, or a
frame.  The threads that are neither left nor chosen keep their slots.
-/

namespace NPKernel

namespace Kernel

variable {kernel : Kernel} {thread next : ThreadId} {answers : Answers} {user : UserState}
  {event : Event}

/-! ## Yielding -/

def yieldedTo (kernel : Kernel) (next : ThreadId) : Kernel :=
  { kernel.deactivate.activateThread next with reschedulePending := false }

/-- The thread that `scheduler_yield` switches to. -/
def YieldsTo (kernel : Kernel) (next : ThreadId) : Prop :=
  kernel.nextRunnable kernel.current = some next ∧ next ≠ kernel.current

/-- What the scheduler goes on with: the stored context, or the one the thread
was created with, through `context_switch`, or a saved frame. -/
inductive Continuation where
  | context (site : Option YieldSite)
  | frame (pointer : FramePtr)
  deriving DecidableEq

def yieldContinuation (kernel : Kernel) (thread : ThreadId) : Continuation :=
  let slot := kernel.threads thread
  if slot.privilegeRing = 0 then .context slot.savedContext
  else
    match slot.savedInterruptFrame with
    | some pointer => .frame pointer
    | none => if contextPresent slot then .frame (.belowContext thread) else .context none

/-- The kernel in which `scheduler_yield` has made `next` current and has made
its frame if it is a user thread that never ran. -/
def readiedTo (kernel : Kernel) (next : ThreadId) : Kernel :=
  if (kernel.threads next).privilegeRing = 0 then kernel.yieldedTo next
  else (kernel.yieldedTo next).materializeFrame

/-- The kernel in which `scheduler_yield` goes on with `next`, with its own
context stored if that is a context. -/
def switchedTo (kernel : Kernel) (site : YieldSite) (next : ThreadId) : Kernel :=
  let ready := kernel.readiedTo next
  match kernel.yieldContinuation next with
  | .context _ =>
    ready.setThread kernel.current
      { ready.threads kernel.current with savedContext := some site }
  | .frame _ => ready

def goOn (answers : Answers) (kernel : Kernel) : Continuation → Kernel
  | .context (some site) => returnFrom answers kernel site
  | .context none => { kernel with mode := if kernel.current = bspIdleThread then .idle else .lost }
  | .frame pointer => resumeFrame answers kernel pointer

theorem yieldContinuation_context {stored : YieldSite}
    (h : kernel.yieldContinuation thread = .context (some stored)) :
    (kernel.threads thread).privilegeRing = 0 ∧
      (kernel.threads thread).savedContext = some stored := by
  revert h
  fun_cases yieldContinuation kernel thread with
  | case1 _ hring => exact fun h => ⟨hring, Continuation.context.inj h⟩
  | _ => exact nofun

theorem materializeFrame_current (kernel : Kernel) :
    kernel.materializeFrame.current = kernel.current :=
  materializeFrame_cases (·.current = _) rfl fun _ => rfl

theorem materializeFrame_saved (kernel : Kernel) :
    kernel.materializeFrame.running.savedInterruptFrame =
      match kernel.running.savedInterruptFrame with
      | some pointer => some pointer
      | none =>
        if contextPresent kernel.running then some (.belowContext kernel.current) else none := by
  unfold materializeFrame
  cases hsaved : kernel.running.savedInterruptFrame with
  | some pointer => exact hsaved
  | none =>
    dsimp only
    split
    · simp [running]
    · exact hsaved

theorem materializeFrame_running (kernel : Kernel) :
    ∃ saved kind, kernel.materializeFrame.running =
      { kernel.running with savedInterruptFrame := saved, savedFrameKind := kind } := by
  refine materializeFrame_cases (fun after => ∃ saved kind, after.running =
    { kernel.running with savedInterruptFrame := saved, savedFrameKind := kind }) ⟨_, _, rfl⟩ ?_
  exact fun _ => ⟨_, _, by rw [running, setThread_current, setThread_threads, if_pos rfl]⟩

theorem materializeFrame_other (hthread : thread ≠ kernel.current) :
    kernel.materializeFrame.threads thread = kernel.threads thread :=
  materializeFrame_cases (·.threads thread = _) rfl fun _ => Function.update_of_ne hthread _ _

theorem materializeFrame_none (h : kernel.materializeFrame.running.savedInterruptFrame = none) :
    kernel.materializeFrame.running.savedContext = none := by
  unfold materializeFrame at h ⊢
  split at h
  next hsome =>
    rw [h] at hsome
    cases hsome
  · split at h
    · simp [running] at h
    next habsent =>
      rw [if_neg habsent]
      simp only [contextPresent, Bool.or_eq_true, not_or] at habsent
      simpa using habsent.1

theorem schedulerYield_returns (answers : Answers) (site : YieldSite)
    (h : ¬∃ next, kernel.YieldsTo next) :
    schedulerYield answers kernel site =
      returnFrom answers { kernel with reschedulePending := false } site := by
  unfold schedulerYield
  split
  · rfl
  next next hnext => rw [if_pos (not_not.1 fun hother => h ⟨next, hnext, hother⟩)]

section Yield

variable {kernel : Kernel} (site : YieldSite) {next : ThreadId}

theorem readiedTo_cases (P : Kernel → Prop) (hyielded : P (kernel.yieldedTo next))
    (hmade : P (kernel.yieldedTo next).materializeFrame) : P (kernel.readiedTo next) := by
  unfold readiedTo
  split <;> assumption

theorem switchedTo_threads {thread : ThreadId} (hthread : thread ≠ kernel.current) :
    (kernel.switchedTo site next).threads thread = (kernel.readiedTo next).threads thread := by
  unfold switchedTo
  dsimp only
  split
  · rw [setThread_threads, if_neg hthread]
  · rfl

variable (hyields : kernel.YieldsTo next)
include hyields

theorem yieldedTo_threads :
    (kernel.yieldedTo next).current = next ∧ ∀ thread, (kernel.yieldedTo next).threads thread =
      if thread = next then { kernel.threads next with state := .running }
      else kernel.deactivate.threads thread := by
  obtain ⟨-, halive⟩ := nextRunnable_some hyields.1
  obtain ⟨process, howner, -⟩ := ownerAlive_owner halive
  have hslot : kernel.deactivate.threads next = kernel.threads next := by
    simp [deactivate, hyields.2]
  unfold yieldedTo
  rw [activateThread_eq (hslot ▸ howner)]
  exact ⟨rfl, fun thread => by rw [← hslot, setThread_threads]⟩

theorem yieldedTo_running :
    (kernel.yieldedTo next).current = next ∧
      (kernel.yieldedTo next).running = { kernel.threads next with state := .running } := by
  obtain ⟨hcurrent, hthreads⟩ := yieldedTo_threads hyields
  exact ⟨hcurrent, by rw [running, hcurrent, hthreads, if_pos rfl]⟩

theorem yieldedTo_transitions :
    Transitions event kernel (kernel.yieldedTo next) := by
  obtain ⟨hready, -⟩ := nextRunnable_some hyields.1
  have hslot : kernel.deactivate.threads next = kernel.threads next := by
    simp [deactivate, hyields.2]
  have hactivated : Transition event _ _ :=
    .switched (Switch.activated (hslot.symm ▸ hready : (kernel.deactivate.threads next).state = _))
  exact ((Transitions.switch (.deactivated kernel)).tail hactivated).tail
    (.changed (.moved (.clock _ _ _)))

theorem schedulerYield_switches (answers : Answers) :
    schedulerYield answers kernel site =
      if (kernel.threads next).privilegeRing = 0 then
        contextSwitch answers (kernel.yieldedTo next) kernel.current site
      else
        match (kernel.yieldedTo next).materializeFrame.running.savedInterruptFrame with
        | some frame => resumeFrame answers (kernel.yieldedTo next).materializeFrame frame
        | none =>
          contextSwitch answers (kernel.yieldedTo next).materializeFrame kernel.current site := by
  have hring : (kernel.yieldedTo next).running.privilegeRing =
      (kernel.threads next).privilegeRing := by
    rw [(yieldedTo_running hyields).2]
  rw [← hring, schedulerYield, hyields.1]
  exact if_neg hyields.2

theorem schedulerYield_goesOn (answers : Answers) :
    schedulerYield answers kernel site =
      goOn answers (kernel.switchedTo site next) (kernel.yieldContinuation next) := by
  have hslot := (yieldedTo_running hyields).2
  rw [schedulerYield_switches site hyields]
  unfold switchedTo readiedTo yieldContinuation
  dsimp only
  split
  · unfold contextSwitch
    dsimp only
    rw [show ((kernel.yieldedTo next).threads (kernel.yieldedTo next).current).savedContext =
      (kernel.threads next).savedContext by rw [← running, hslot]]
    cases (kernel.threads next).savedContext <;> rfl
  · have hready : (kernel.yieldedTo next).materializeFrame.running.savedInterruptFrame =
        match (kernel.threads next).savedInterruptFrame with
        | some pointer => some pointer
        | none =>
          if contextPresent (kernel.threads next) then some (.belowContext next) else none := by
      rw [materializeFrame_saved, (yieldedTo_running hyields).1, hslot]
      rfl
    cases hsaved : (kernel.threads next).savedInterruptFrame with
    | some pointer =>
      rw [hready, hsaved]
      rfl
    | none =>
      rw [hsaved] at hready
      dsimp only at hready ⊢
      by_cases hpresent : contextPresent (kernel.threads next) = true
      · rw [if_pos hpresent] at hready ⊢
        rw [hready]
        rfl
      rw [if_neg hpresent] at hready ⊢
      rw [hready]
      have hnone : ((kernel.yieldedTo next).materializeFrame.threads
          (kernel.yieldedTo next).materializeFrame.current).savedContext = none :=
        materializeFrame_none hready
      dsimp only
      rw [contextSwitch, hnone]
      rfl

theorem switchedTo_current : (kernel.switchedTo site next).current = next := by
  have hcurrent := (yieldedTo_running hyields).1
  have hready : (kernel.readiedTo next).current = next :=
    readiedTo_cases (·.current = next) hcurrent ((materializeFrame_current _).trans hcurrent)
  unfold switchedTo
  dsimp only
  split <;> exact hready

theorem readiedTo_other {thread : ThreadId} (hnew : thread ≠ next) :
    (kernel.readiedTo next).threads thread = kernel.deactivate.threads thread := by
  have hyielded : (kernel.yieldedTo next).threads thread = kernel.deactivate.threads thread := by
    rw [(yieldedTo_threads hyields).2, if_neg hnew]
  refine readiedTo_cases (·.threads thread = _) hyielded ?_
  rw [materializeFrame_other, hyielded]
  rwa [(yieldedTo_running hyields).1]

/-- The thread that was left keeps its frame if it is blocked; the context of
this very call of `scheduler_yield` is stored if another one is gone on with. -/
theorem switchedTo_left :
    (kernel.switchedTo site next).threads kernel.current =
      { kernel.deactivate.running with
        savedContext :=
          match kernel.yieldContinuation next with
          | .context _ => some site
          | .frame _ => kernel.running.savedContext } := by
  have hready := readiedTo_other hyields (Ne.symm hyields.2)
  unfold switchedTo
  dsimp only
  cases kernel.yieldContinuation next with
  | context resumed =>
    dsimp only
    rw [setThread_threads, if_pos rfl, hready]
    rfl
  | frame pointer =>
    dsimp only
    rw [hready]
    simp [deactivate, running]

theorem switchedTo_other {thread : ThreadId} (hthread : thread ≠ kernel.current)
    (hnew : thread ≠ next) :
    (kernel.switchedTo site next).threads thread = kernel.threads thread := by
  rw [switchedTo_threads site hthread, readiedTo_other hyields hnew]
  simp [deactivate, hthread]

theorem switchedTo_resumed {pointer : FramePtr}
    (hsaved : (kernel.threads next).savedInterruptFrame = some pointer) :
    (kernel.switchedTo site next).threads next =
      { kernel.threads next with state := .running } := by
  have hyielded : (kernel.yieldedTo next).threads next =
      { kernel.threads next with state := .running } := by
    rw [(yieldedTo_threads hyields).2, if_pos rfl]
  rw [switchedTo_threads site hyields.2]
  have hmade : (kernel.yieldedTo next).materializeFrame = kernel.yieldedTo next :=
    materializeFrame_of_saved (by rw [(yieldedTo_running hyields).2]; exact hsaved)
  exact readiedTo_cases (·.threads next = _) hyielded (by rw [hmade]; exact hyielded)

variable {event : Event}

theorem switchedTo_transitions : Transitions event kernel (kernel.switchedTo site next) := by
  have hyielded : Transitions event kernel (kernel.yieldedTo next) :=
    yieldedTo_transitions hyields
  have hready : Transitions event kernel (kernel.readiedTo next) :=
    readiedTo_cases _ hyielded (hyielded.tail (.switched (.materialized _)))
  unfold switchedTo
  dsimp only
  split
  · exact hready.tail (.switched (.stored _ _ _))
  · exact hready

theorem switchedTo_running :
    ∃ saved kind, (kernel.switchedTo site next).running =
      { kernel.threads next with
        state := .running
        savedInterruptFrame := saved
        savedFrameKind := kind } := by
  obtain ⟨hcurrent, hslot⟩ := yieldedTo_running hyields
  rw [running, switchedTo_current site hyields, switchedTo_threads site hyields.2]
  unfold readiedTo
  split
  · rw [running, hcurrent] at hslot
    exact ⟨_, _, hslot⟩
  · obtain ⟨saved, kind, heq⟩ := materializeFrame_running (kernel.yieldedTo next)
    rw [running, materializeFrame_current, hcurrent, hslot] at heq
    exact ⟨saved, kind, heq⟩

theorem goOn_changes (answers : Answers) (continuation : Continuation)
    (hevent : continuation = .context (some .wait4) → ∃ answers, event = .yield answers) :
    Changes event (kernel.switchedTo site next)
      (goOn answers (kernel.switchedTo site next) continuation) := by
  have hlive : (kernel.switchedTo site next).running.state.live = true := by
    obtain ⟨saved, kind, heq⟩ := switchedTo_running site hyields
    rw [heq]
    rfl
  cases continuation with
  | context stored =>
    cases stored with
    | none => exact .move (.mode _ _)
    | some resumed =>
      refine returnFrom_changes answers _ resumed ?_ fun _ => hlive
      rintro rfl
      exact hevent rfl
  | frame pointer => exact resumeFrame_changes answers _ pointer

end Yield

/-- The call of `scheduler_yield` ends in the rest of a `wait4`: that of its
caller, or that of the stored context of the next thread. -/
def ResumesWait (kernel : Kernel) (site : YieldSite) : Prop :=
  match kernel.nextRunnable kernel.current with
  | none => site = .wait4
  | some next =>
    if next = kernel.current then site = .wait4
    else (kernel.threads next).privilegeRing = 0 ∧ (kernel.threads next).savedContext = some .wait4

theorem ResumesWait.cases {site : YieldSite} (h : kernel.ResumesWait site) :
    (site = .wait4 ∧ ¬∃ next, kernel.YieldsTo next) ∨
      ∃ next, kernel.YieldsTo next ∧
        (kernel.threads next).privilegeRing = 0 ∧
          (kernel.threads next).savedContext = some .wait4 := by
  unfold ResumesWait at h
  split at h
  next hnone => exact .inl ⟨h, by simp [YieldsTo, hnone]⟩
  next next hnext =>
    split at h
    next hself => exact .inl ⟨h, by simpa [YieldsTo, hnext] using hself⟩
    next hother => exact .inr ⟨next, ⟨hnext, hother⟩, h⟩

theorem schedulerYield_transitions (answers : Answers) (kernel : Kernel) (site : YieldSite)
    (hevent : kernel.ResumesWait site → ∃ answers, event = .yield answers)
    (hlive : site ≠ .exit → kernel.running.state.live = true) :
    Transitions event kernel (schedulerYield answers kernel site) := by
  unfold ResumesWait at hevent
  by_cases hreturns : ∃ next, kernel.YieldsTo next
  · obtain ⟨next, hyields⟩ := hreturns
    rw [hyields.1] at hevent
    dsimp only at hevent
    rw [if_neg hyields.2] at hevent
    rw [schedulerYield_goesOn site hyields]
    exact (switchedTo_transitions site hyields).trans (Changes.transitions
      (goOn_changes site hyields answers _ fun h => hevent (yieldContinuation_context h)))
  · have hpending : Changes event kernel { kernel with reschedulePending := false } :=
      .move (.clock _ _ _)
    rw [schedulerYield_returns answers site hreturns]
    refine Changes.transitions (hpending.trans (returnFrom_changes answers _ site ?_ hlive))
    intro hsite
    refine hevent ?_
    split
    · exact hsite
    next next hnext =>
      rw [if_pos (not_not.1 fun hother => hreturns ⟨next, hnext, hother⟩)]
      exact hsite

theorem schedulerYield_resumes {site resumed : YieldSite} (hyields : kernel.YieldsTo next)
    (hring : (kernel.threads next).privilegeRing = 0)
    (hcontext : (kernel.threads next).savedContext = some resumed) :
    schedulerYield answers kernel site =
      returnFrom answers (kernel.switchedTo site next) resumed := by
  rw [schedulerYield_goesOn site hyields, yieldContinuation, if_pos hring, hcontext, goOn]

/-! ## Preemption -/

def preempted (kernel : Kernel) (user : UserState) : Kernel :=
  kernel.futexExpireWaiters.setThread kernel.futexExpireWaiters.current
    { kernel.futexExpireWaiters.running with
      savedInterruptFrame := some (.stackTop kernel.futexExpireWaiters.current)
      savedFrameKind := .interrupt
      frame := user.words
      state := .running }

def preemptedTo (kernel : Kernel) (user : UserState) (next : ThreadId) : Kernel :=
  { ((kernel.preempted user).setThread (kernel.preempted user).current
      { (kernel.preempted user).running with state := .ready }).activateThread next with
    reschedulePending := false }

abbrev preemptNext (kernel : Kernel) (user : UserState) : Option ThreadId :=
  (kernel.preempted user).nextNonIdleRunnable (kernel.preempted user).current

theorem preempted_changes (user : UserState) (hevent : ∃ user answers, event = .timer user answers)
    (hlive : kernel.running.state.live = true) :
    Changes event kernel (kernel.preempted user) := by
  have hexpired := futexExpireWaiters_step kernel
  have hexpiredLive : kernel.futexExpireWaiters.running.state.live = true := by
    unfold running at hlive ⊢
    rw [hexpired.current, hexpired.live]
    exact hlive
  exact (Changes.move (.futex hexpired)).tail (.moved (.interrupted user hexpiredLive hevent))

theorem preempted_running (kernel : Kernel) (user : UserState) :
    (kernel.preempted user).running.state = .running := by
  simp [preempted, running]

theorem schedulerPreempt_stays (answers : Answers) {user : UserState}
    (hnone : kernel.preemptNext user = none) :
    schedulerPreempt answers kernel user =
      { kernel.preempted user with reschedulePending := false } := by
  unfold preemptNext preempted at hnone
  unfold schedulerPreempt
  dsimp only
  rw [hnone]
  rfl

section Preempt

variable {kernel : Kernel} {user : UserState} {next : ThreadId}
  (hnext : kernel.preemptNext user = some next)
include hnext

theorem preemptedTo_threads :
    next ≠ (kernel.preempted user).current ∧ (kernel.preemptedTo user next).current = next ∧
      ∀ thread, (kernel.preemptedTo user next).threads thread =
        if thread = next then { (kernel.preempted user).threads next with state := .running }
        else if thread = (kernel.preempted user).current then
          { (kernel.preempted user).running with state := .ready }
        else (kernel.preempted user).threads thread := by
  obtain ⟨hready, halive, -⟩ := findNextRunnable_some hnext
  obtain ⟨process, howner, -⟩ := ownerAlive_owner halive
  have hother : next ≠ (kernel.preempted user).current := by
    rintro rfl
    have hrunning := preempted_running kernel user
    rw [running, hready] at hrunning
    cases hrunning
  have hslot : ((kernel.preempted user).setThread (kernel.preempted user).current
      { (kernel.preempted user).running with state := .ready }).threads next =
        (kernel.preempted user).threads next := by
    simp [hother]
  unfold preemptedTo
  rw [activateThread_eq (hslot ▸ howner)]
  refine ⟨hother, rfl, ?_⟩
  intro thread
  rw [setThread_threads, hslot, setThread_threads]

theorem preemptedTo_running :
    next ≠ (kernel.preempted user).current ∧
      (kernel.preemptedTo user next).current = next ∧
      (kernel.preemptedTo user next).running =
        { (kernel.preempted user).threads next with state := .running } := by
  obtain ⟨hother, hcurrent, hthreads⟩ := preemptedTo_threads hnext
  exact ⟨hother, hcurrent, by rw [running, hcurrent, hthreads, if_pos rfl]⟩

theorem preemptedTo_transitions :
    Transitions event (kernel.preempted user)
      (kernel.preemptedTo user next).materializeFrame := by
  have hready := (findNextRunnable_some hnext).1
  have hother := (preemptedTo_running hnext).1
  have hactivated : Transition event _ _ := .switched (Switch.activated (show
    (((kernel.preempted user).setThread (kernel.preempted user).current
      { (kernel.preempted user).running with state := .ready }).threads next).state = .ready by
        simpa [hother] using hready))
  exact (((Transitions.switch (.readied (preempted_running kernel user))).tail hactivated).tail
    (.changed (.moved (.clock _ _ _)))).tail (.switched (.materialized _))

theorem schedulerPreempt_goesOn (answers : Answers) :
    schedulerPreempt answers kernel user =
      match (kernel.preemptedTo user next).materializeFrame.running.savedInterruptFrame with
      | some frame =>
        if ((kernel.preempted user).threads next).privilegeRing = 0 then
          { (kernel.preemptedTo user next).materializeFrame with mode := .lost }
        else resumeFrame answers (kernel.preemptedTo user next).materializeFrame frame
      | none => (kernel.preemptedTo user next).materializeFrame := by
  have hring : (kernel.preemptedTo user next).materializeFrame.running.privilegeRing =
      ((kernel.preempted user).threads next).privilegeRing := by
    obtain ⟨saved, kind, heq⟩ := materializeFrame_running (kernel.preemptedTo user next)
    rw [heq, (preemptedTo_running hnext).2.2]
  rw [← hring]
  unfold preemptNext preempted at hnext
  unfold schedulerPreempt
  dsimp only
  rw [hnext]
  rfl

theorem schedulerPreempt_changes {event : Event} (answers : Answers) :
    Changes event (kernel.preemptedTo user next).materializeFrame
      (schedulerPreempt answers kernel user) := by
  rw [schedulerPreempt_goesOn hnext answers]
  split
  · split
    · exact .move (.mode _ _)
    · exact resumeFrame_changes answers _ _
  · exact .refl

end Preempt

/-! ## What no change of the current thread touches -/

def tables (kernel : Kernel) : (Fin 256 → FutexWaiter) × Option ThreadId × (ProcId → ProcessSlot) :=
  (kernel.futexWaiters, kernel.inputWaiter, kernel.processes)

theorem materializeFrame_tables (kernel : Kernel) :
    kernel.materializeFrame.tables = kernel.tables :=
  materializeFrame_cases (·.tables = _) rfl fun _ => rfl

theorem activateThread_tables (kernel : Kernel) (thread : ThreadId) :
    (kernel.activateThread thread).tables = kernel.tables :=
  activateThread_cases (·.tables = _) rfl rfl

theorem preemptedTo_tables (kernel : Kernel) (user : UserState) (next : ThreadId) :
    (kernel.preemptedTo user next).materializeFrame.tables = (kernel.preempted user).tables :=
  (materializeFrame_tables _).trans (activateThread_tables _ next)

theorem switchedTo_tables (kernel : Kernel) (site : YieldSite) (next : ThreadId) :
    (kernel.switchedTo site next).tables = kernel.tables := by
  have hyielded : (kernel.yieldedTo next).tables = kernel.tables :=
    activateThread_tables kernel.deactivate next
  have hready : (kernel.readiedTo next).tables = kernel.tables :=
    readiedTo_cases (·.tables = _) hyielded ((materializeFrame_tables _).trans hyielded)
  unfold switchedTo
  dsimp only
  split <;> exact hready

theorem switchedTo_processes (kernel : Kernel) (site : YieldSite) (next : ThreadId) :
    (kernel.switchedTo site next).processes = kernel.processes :=
  congrArg (fun tables => tables.2.2) (switchedTo_tables kernel site next)

end Kernel

end NPKernel
