import NPKernel.FutexTables

/-!
# The kernel process

The kernel process counts only the boot thread, although it owns the idle thread
as well.  `process_exit_current` does not ask for the ring of its caller: that
the kernel process never ends rests on its threads.  The boot thread never runs
again, and the idle thread runs only in its own loop, which makes no call.
-/

namespace NPKernel

open RegisterStack GuardedRuns

namespace Kernel

variable {kernel after next : Kernel} {event : Event} {site : YieldSite} {chosen : ThreadId}

/-- The kernel process is alive, and the idle thread can only return to its loop. -/
structure KernelKept (kernel : Kernel) : Prop where
  alive : (kernel.processes kernelProcess).alive = true
  context : (kernel.threads bspIdleThread).state.live = true →
    ∀ resumed ∈ (kernel.threads bspIdleThread).savedContext, resumed = .idle

structure IdleApart (kernel : Kernel) : Prop extends KernelKept kernel where
  boot : kernel.current ≠ 0
  loop : kernel.current = bspIdleThread → kernel.mode = .idle ∨ kernel.mode = .yielding .idle

/-! ## Changes while another thread runs -/

theorem Change.kernelAlive (h : Change event kernel after)
    (howner : kernel.processCurrent ≠ some kernelProcess)
    (halive : (kernel.processes kernelProcess).alive = true) :
    (after.processes kernelProcess).alive = true := by
  have hother : ∀ {process record}, process ≠ kernelProcess →
      after.processes = Function.update kernel.processes process record →
      (after.processes kernelProcess).alive = true := by
    intro process record hprocess heq
    rwa [heq, Function.update_of_ne hprocess.symm]
  have hcurrent : ∀ {process}, kernel.processCurrent = some process → process ≠ kernelProcess := by
    rintro process hprocess rfl
    exact howner hprocess
  cases h with
  | moved hmove =>
    exact (hmove.sched.processField (fun slot => slot.alive) (fun _ => rfl) _).trans halive
  | personal hpersonal =>
    obtain ⟨_, _, rfl, -⟩ := hpersonal.setThread
    exact halive
  | clearedThread => exact halive
  | action _ _ _ hprocess | cloned _ _ hprocess => exact hother (hcurrent hprocess) rfl
  | forked _ _ _ _ _ _ hchild => exact hother hchild.1 rfl
  | clearedProcess hprocess => exact hother hprocess.1 rfl
  | threadEnded hprocess _ _ hended | processEnded _ _ hprocess _ hended =>
    exact hother (hcurrent hprocess) (by rw [← hended.processes]; rfl)
  | reaped hprocess => exact hother hprocess rfl

theorem GroupsCounted.kernelAlive (h : kernel.GroupsCounted)
    (hcurrent : ¬KernelThread kernel.current)
    (halive : (kernel.processes kernelProcess).alive = true)
    (hchanges : Changes event kernel after) : (after.processes kernelProcess).alive = true := by
  induction hchanges with
  | refl => exact halive
  | tail hbefore hchange ih =>
    refine hchange.kernelAlive ?_ ih
    intro howner
    rw [← Changes.current hbefore] at hcurrent
    exact hcurrent ((h.afterChanges hbefore).outside _ howner)

/-- The idle thread rests while another thread runs. -/
theorem KernelKept.of_rests (h : kernel.KernelKept)
    (hrests : bspIdleThread ≠ after.current → Rests kernel after bspIdleThread)
    (hgroups : after.GroupsCounted) (hcurrent : ¬KernelThread after.current)
    (halive : (after.processes kernelProcess).alive = true) : after.IdleApart := by
  obtain ⟨hboot, hidle⟩ := not_or.mp hcurrent
  refine ⟨⟨halive, ?_⟩, hboot, fun heq => absurd heq hidle⟩
  intro hlive
  rcases (hrests (Ne.symm hidle)).slot with hrested | hdead | ⟨-, hstarts⟩
  · have hcontext : (after.threads bspIdleThread).savedContext = _ :=
      hrested.field (fun scheduling => scheduling.2.2.2.2.2.2.1) fun _ _ _ => rfl
    rw [hcontext]
    exact h.context (hrested.live.symm.trans hlive)
  · rw [hlive] at hdead
    cases hdead
  · have hring := (hgroups.kernelThread bspIdleThread (.inr rfl)).2.2.1
    rw [hstarts.ring] at hring
    cases hring

/-! ## The idle loop -/

namespace IdleApart

variable (h : kernel.IdleApart)
include h

theorem afterSched (hsched : SchedStep kernel after)
    (hcontext : (after.threads bspIdleThread).savedContext =
      (kernel.threads bspIdleThread).savedContext) (hcurrent : after.current = kernel.current)
    (hmode : after.mode = kernel.mode) : after.IdleApart := by
  refine ⟨⟨?_, ?_⟩, ?_, ?_⟩
  · exact (hsched.processField (fun slot => slot.alive) (fun _ => rfl) _).trans h.alive
  · rw [hsched.live, hcontext]
    exact h.context
  · rw [hcurrent]
    exact h.boot
  · rw [hcurrent, hmode]
    exact h.loop

theorem idleLoop : kernel.idleLoop.IdleApart := by
  unfold Kernel.idleLoop
  split
  · exact ⟨⟨h.alive, h.context⟩, h.boot, fun _ => .inr rfl⟩
  · exact h

theorem kernelTick : kernel.kernelTick.IdleApart := by
  have hticked : { kernel with timerTicks := kernel.timerTicks + 1 }.IdleApart :=
    h.afterSched (.of_tables rfl rfl rfl rfl) rfl rfl rfl
  have hstep := futexExpireWaiters_step { kernel with timerTicks := kernel.timerTicks + 1 }
  have hexpired := hticked.afterSched hstep.sched
    (hstep.field (fun slot => slot.savedContext) (fun _ _ => rfl) _) hstep.current hstep.mode
  exact idleLoop (hexpired.afterSched (.of_tables rfl rfl rfl rfl) rfl rfl rfl)

theorem schedulerWakeThread (thread : ThreadId) :
    (kernel.schedulerWakeThread thread).IdleApart := by
  unfold Kernel.schedulerWakeThread
  split
  next hblocked =>
    refine h.afterSched (.ofThread rfl rfl rfl rfl rfl ?_ ?_) ?_ rfl rfl
    · simp [hblocked, ThreadState.live]
    · simp [hblocked]
    · simp only [setThread_threads]
      split
      next heq => rw [heq]
      · rfl
  · exact h

theorem enqueueByte : kernel.enqueueByte.IdleApart := by
  have hqueued :
      { kernel with inputQueued := kernel.inputQueued + 1, inputWaiter := none }.IdleApart :=
    h.afterSched (.of_tables rfl rfl rfl rfl) rfl rfl rfl
  unfold Kernel.enqueueByte
  split
  · apply idleLoop
    split
    · exact hqueued.schedulerWakeThread _
    · exact hqueued
  · exact h

end IdleApart

/-! ## Changes of the current thread -/

theorem findNextRunnable_ne_zero {start : ThreadId} {allowIdle : Bool} (hstart : start ≠ 0)
    (h : kernel.findNextRunnable start allowIdle = some chosen) : chosen ≠ 0 := by
  rintro rfl
  have hfound := List.find?_some h
  simp [hstart.symm] at hfound

theorem nextRunnable_ne_zero {start : ThreadId} (hstart : start ≠ 0)
    (h : kernel.nextRunnable start = some chosen) : chosen ≠ 0 := by
  unfold nextRunnable at h
  split at h
  next hfound =>
    cases h
    exact findNextRunnable_ne_zero hstart hfound
  · exact findNextRunnable_ne_zero hstart h

theorem IdleApart.afterYielded (h : kernel.IdleApart) (hgroups : kernel.GroupsCounted)
    (hfiled : kernel.Filed) (answers : Answers) (hyields : kernel.YieldsTo chosen)
    (hsite : kernel.current = bspIdleThread → site = .idle) :
    (goOn answers (kernel.switchedTo site chosen) (kernel.yieldContinuation chosen)).IdleApart := by
  have hready := (nextRunnable_some hyields.1).1
  have hzero := nextRunnable_ne_zero h.boot hyields.1
  have hcurrent := switchedTo_current site hyields
  obtain ⟨-, hused, hring, -⟩ := hgroups.kernelThread bspIdleThread (.inr rfl)
  have hkept : (kernel.switchedTo site chosen).KernelKept := by
    refine ⟨by rw [switchedTo_processes]; exact h.alive, ?_⟩
    intro hlive
    obtain ⟨⟨-, -, hstate⟩, hcontext⟩ := switchedTo_record site hyields bspIdleThread
    rcases hcontext with hsame | ⟨hleft, hstored⟩
    · rw [hsame]
      refine h.context ?_
      rcases hstate with hstate | ⟨-, hzombie⟩
      · exact hstate ▸ hlive
      · cases hbefore : (kernel.threads bspIdleThread).state <;> simp_all [ThreadState.live]
    · rw [hstored, hsite hleft.symm]
      exact fun resumed hresumed => (Option.some.inj hresumed).symm
  by_cases hchosen : chosen = bspIdleThread
  · subst hchosen
    have hgone : goOn answers (kernel.switchedTo site bspIdleThread)
        (kernel.yieldContinuation bspIdleThread) =
          { kernel.switchedTo site bspIdleThread with mode := .idle } := by
      rw [yieldContinuation, if_pos hring]
      cases hcontext : (kernel.threads bspIdleThread).savedContext with
      | none => simp [goOn, hcurrent]
      | some resumed =>
        obtain rfl := h.context (by rw [hready]; rfl) resumed hcontext
        rfl
    rw [hgone]
    exact ⟨⟨hkept.alive, hkept.context⟩, by rw [hcurrent]; exact hzero, fun _ => .inl rfl⟩
  · have hswitched : Transitions (.yield answers) kernel (kernel.switchedTo site chosen) :=
      switchedTo_transitions site hyields
    have hchanges : Changes (.yield answers) _ _ :=
      goOn_changes site hyields answers (kernel.yieldContinuation chosen) fun _ => ⟨answers, rfl⟩
    have hother : ¬KernelThread (kernel.switchedTo site chosen).current := by
      rw [hcurrent]
      exact not_or.mpr ⟨hzero, hchosen⟩
    have hcounted := hgroups.afterTransitions hswitched
    refine hkept.of_rests (fun _ => .of_changes (hfiled.afterTransitions hswitched) hchanges ?_)
      (hcounted.afterChanges hchanges) ?_ (hcounted.kernelAlive hother hkept.alive hchanges)
    · exact fun heq => hother (.inr heq.symm)
    · rw [Changes.current hchanges]
      exact hother

theorem GroupsCounted.afterPreempted {user : UserState} {answers : Answers}
    (h : (kernel.preempted user).GroupsCounted) (hboot : (kernel.preempted user).current ≠ 0)
    (halive : ((kernel.preempted user).processes kernelProcess).alive = true)
    (hnext : kernel.preemptNext user = some chosen) :
    ¬KernelThread (schedulerPreempt answers kernel user).current ∧
      ((schedulerPreempt answers kernel user).processes kernelProcess).alive = true := by
  have hswitched : Transitions .kernelTick _ _ := preemptedTo_transitions hnext
  have hchanges : Changes .kernelTick _ _ := schedulerPreempt_changes hnext answers
  have hcurrent : ¬KernelThread (kernel.preemptedTo user chosen).materializeFrame.current := by
    rw [materializeFrame_current, (preemptedTo_running hnext).2.1]
    exact not_or.mpr ⟨findNextRunnable_ne_zero hboot hnext, (findNextRunnable_some hnext).2.2 rfl⟩
  refine ⟨by rw [Changes.current hchanges]; exact hcurrent,
    (h.afterTransitions hswitched).kernelAlive hcurrent ?_ hchanges⟩
  rw [show (kernel.preemptedTo user chosen).materializeFrame.processes = _ from
    congrArg (fun tables => tables.2.2) (preemptedTo_tables kernel user chosen)]
  exact halive

theorem GroupsCounted.execed (answers : Answers) (h : kernel.GroupsCounted)
    (hlive : kernel.running.state.live = true) (hcurrent : ¬KernelThread kernel.current) :
    ¬KernelThread (kernel.processExecCurrent answers).2.current := by
  rcases processExecCurrent_mainLive answers h hlive with
    ⟨-, hsame⟩ | ⟨process, staged, main, -, hne, -, -, hmember, hexec⟩
  · rw [hsame]
    exact hcurrent
  · rw [hexec]
    exact h.owner_of_kernelThread (mem_liveThreads.mp hmember).1 hne

theorem IdleApart.afterStep (h : kernel.IdleApart) (haccounted : kernel.Accounted)
    (hfiled : kernel.Filed) (hstep : kernel.step event = some next) : next.IdleApart := by
  have hgroups := haccounted.counted
  by_cases hidle : kernel.current = bspIdleThread
  · have hloop := h.loop hidle
    cases step_stepped hstep with
    | kernelTick => exact h.kernelTick
    | key => exact h.enqueueByte
    | @yield answers site hmode =>
      obtain rfl : site = .idle := by simpa [hmode] using hloop
      by_cases hyields : ∃ chosen, kernel.YieldsTo chosen
      · obtain ⟨chosen, hyields⟩ := hyields
        rw [schedulerYield_goesOn .idle hyields]
        exact h.afterYielded hgroups hfiled answers hyields fun _ => rfl
      · rw [schedulerYield_returns answers .idle hyields]
        exact ⟨⟨h.alive, h.context⟩, h.boot, fun _ => .inl rfl⟩
    | _ => simp_all
  have hcurrent : ¬KernelThread kernel.current := not_or.mpr ⟨h.boot, hidle⟩
  have hhandover := step_handover haccounted.positioned hstep
  have hapart : ¬KernelThread next.current → (next.processes kernelProcess).alive = true →
      next.IdleApart :=
    h.toKernelKept.of_rests (hhandover.rests hfiled (Ne.symm hidle))
      (haccounted.afterStep hstep).counted
  cases hhandover with
  | kept hchanges =>
    rw [Changes.current hchanges] at hapart
    exact hapart hcurrent (hgroups.kernelAlive hcurrent h.alive hchanges)
  | yielded _ _ hnext hother hgone =>
    rw [hgone]
    exact h.afterYielded hgroups hfiled _ ⟨hnext, hother⟩ fun heq => absurd heq hidle
  | preempted _ _ _ hsaved hnext hgone =>
    rw [hgone] at hapart ⊢
    obtain ⟨hother, halive⟩ := (hgroups.afterChanges hsaved).afterPreempted
      (by rw [Changes.current hsaved]; exact h.boot)
      (hgroups.kernelAlive hcurrent h.alive hsaved) hnext
    exact hapart hother halive
  | @execed user answers _ hmode _ hexec =>
    have hentered : Changes event kernel (kernel.enterSyscall user.syscallFrame) :=
      enterSyscall_changes kernel _
    rw [hexec] at hapart ⊢
    refine hapart ((hgroups.afterChanges hentered).execed answers ?_ ?_) ?_
    · rw [enterSyscall_state]
      exact haccounted.positioned.runningLive (by rw [hmode]; rfl)
    · rwa [Changes.current hentered]
    · rw [processExecCurrent_processField answers _ (fun slot => slot.alive) fun _ _ _ => rfl]
      exact enterSyscall_alive _ h.alive

theorem IdleApart.launched (root entry stack : Word) : (launched root entry stack).IdleApart :=
  ⟨⟨rfl, nofun⟩, (by decide : (2 : ThreadId) ≠ 0),
    (absurd · (by decide : (2 : ThreadId) ≠ bspIdleThread))⟩

theorem IdleApart.afterRun {root entry stack : Word} {events : List Event} {last : Kernel}
    (hrun : run step (NPKernel.launched root entry stack) events = some last) :
    last.Accounted ∧ last.IdleApart := by
  have hpreserve : ∀ (kernel : Kernel) event (next : Kernel),
      kernel.Accounted ∧ kernel.Filed ∧ kernel.IdleApart → True → kernel.step event = some next →
      next.Accounted ∧ next.Filed ∧ next.IdleApart := by
    rintro kernel event next ⟨haccounted, hfiled, h⟩ - hstep
    exact ⟨haccounted.afterStep hstep, hfiled.afterStep haccounted.positioned hstep,
      h.afterStep haccounted hfiled hstep⟩
  obtain ⟨haccounted, -, hidle⟩ := invariant_run hpreserve
    ⟨.launched root entry stack, .launched root entry stack, .launched root entry stack⟩
    (.of_forall fun _ _ _ => trivial) hrun
  exact ⟨haccounted, hidle⟩

end Kernel

/-- In every run a living process counts at least one thread, its main thread is
live, and it counts its live threads unless it is the kernel process.  A process
that is not alive has no live thread. -/
theorem thread_count_counts_live_threads {root entry stack : Word} {events : List Event}
    {last : Kernel} (hrun : run Kernel.step (launched root entry stack) events = some last)
    (process : ProcId) :
    ((last.processes process).alive = true →
      1 ≤ (last.processes process).threadCount ∧
      (∃ main ∈ last.liveThreads process, (last.processes process).mainThread = some main) ∧
      (process ≠ kernelProcess →
        (last.processes process).threadCount = (last.liveThreads process).card)) ∧
    ((last.processes process).alive = false → ∀ thread,
      (last.threads thread).owner = some process → (last.threads thread).state.live = false) := by
  obtain ⟨haccounted, hidle⟩ := Kernel.IdleApart.afterRun hrun
  have hsound := haccounted.counted
  constructor
  · intro halive
    obtain ⟨main, hmain, hmember⟩ := hsound.main process halive
    refine ⟨?_, ⟨main, hmember, hmain⟩, fun hprocess => hsound.count process hprocess halive⟩
    by_cases hprocess : process = kernelProcess
    · subst hprocess
      exact (hsound.boot halive).ge
    · rw [hsound.count process hprocess halive]
      exact Finset.card_pos.mpr ⟨main, hmember⟩
  · intro hdead thread
    refine hsound.liveThreads_of_dead ?_ hdead
    rintro rfl
    rw [hidle.alive] at hdead
    cases hdead

theorem thread_count_counts_live_threads_cloned :
    ∃ last, run Kernel.step sampleKernel cloneExitRun = some last ∧
      (last.processes 1).alive = true ∧
      (last.processes 1).threadCount = (last.liveThreads 1).card := by
  have halive : (run Kernel.step sampleKernel cloneExitRun).map
      (fun last => (last.processes 1).alive) = some true := by
    decide +kernel
  obtain ⟨last, hrun, halive⟩ := Option.map_eq_some_iff.1 halive
  exact ⟨last, hrun, halive, ((thread_count_counts_live_threads hrun 1).1 halive).2.2 (by decide)⟩

/-- The kernel process owns the boot thread and the idle thread. -/
theorem kernel_process_counts_one_of_two :
    ¬ ∀ (events : List Event) (last : Kernel) (process : ProcId),
      run Kernel.step sampleKernel events = some last →
      (last.processes process).alive = true →
      (last.processes process).threadCount = (last.liveThreads process).card := by
  intro h
  have hcount := h [] _ kernelProcess rfl rfl
  have hboth : {0, bspIdleThread} ⊆ sampleKernel.liveThreads kernelProcess := by
    decide
  have htwo := Finset.card_le_card hboth
  rw [← hcount] at htwo
  exact absurd htwo (by decide)

end NPKernel
