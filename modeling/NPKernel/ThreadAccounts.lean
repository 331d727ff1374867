import NPKernel.ThreadGroups

/-!
# The threads of a live process

A user thread runs only in a process that is alive.  A thread that exits stays a
zombie as long as its process is alive: only the reaping of the process gives its
slot back.
-/

namespace NPKernel

open RegisterStack GuardedRuns

/-! ## Zombies of a live process -/

namespace Kernel

/-- A process that is alive was so before, with the same pid, or its pid is new. -/
def PidsFresh (before after : Kernel) : Prop :=
  ∀ process, (after.processes process).alive = true →
    ((before.processes process).alive = true ∧
      (after.processes process).pid = (before.processes process).pid) ∨
    ((after.processes process).pid = before.nextPid ∧ before.nextPid < after.nextPid)

structure Retains (before after : Kernel) : Prop where
  zombie : ∀ thread process, (before.threads thread).state = .zombie →
    (before.threads thread).owner = some process →
    ((after.threads thread).state = .zombie ∧ (after.threads thread).owner = some process ∧
      (after.threads thread).tid = (before.threads thread).tid) ∨
      (after.processes process).alive = false
  process : PidsFresh before after
  nextPid : before.nextPid ≤ after.nextPid

variable {before after kernel last : Kernel} {process : ProcId} {pid tid : ℕ} {thread : ThreadId}
  {events : List Event}

theorem PidsFresh.of_update {slot : ProcessSlot}
    (hprocesses : after.processes = Function.update before.processes process slot)
    (hslot : slot.alive = true →
      ((before.processes process).alive = true ∧ slot.pid = (before.processes process).pid) ∨
      (slot.pid = before.nextPid ∧ before.nextPid < after.nextPid)) : PidsFresh before after := by
  intro other
  rw [hprocesses, Function.update_apply]
  split
  next heq =>
    subst heq
    exact hslot
  · exact fun halive => .inl ⟨halive, rfl⟩

theorem PidsFresh.of_eq (h : after.processes = before.processes) : PidsFresh before after := by
  intro process halive
  rw [h] at halive ⊢
  exact .inl ⟨halive, rfl⟩

namespace Retains

variable {kernel before after : Kernel}

theorem of_kept (hthread : ∀ thread, (before.threads thread).state = .zombie →
      (after.threads thread).state = .zombie ∧
        (after.threads thread).owner = (before.threads thread).owner ∧
        (after.threads thread).tid = (before.threads thread).tid)
    (hprocess : PidsFresh before after) (hpid : before.nextPid ≤ after.nextPid) :
    Retains before after := by
  refine ⟨?_, hprocess, hpid⟩
  intro thread process hzombie howner
  obtain ⟨hstate, hsame, htid⟩ := hthread thread hzombie
  exact .inl ⟨hstate, hsame.trans howner, htid⟩

theorem of_sched (h : SchedStep before after) : Retains before after := by
  refine .of_kept ?_ ?_ h.nextPid.ge
  · intro thread hzombie
    refine ⟨?_, h.owner thread, h.field (fun slot => slot.tid) (fun _ => rfl) thread⟩
    have hlive := h.live thread
    have hunused := h.unused thread
    rw [hzombie] at hlive hunused
    cases hstate : (after.threads thread).state <;> simp_all [ThreadState.live]
  · intro process halive
    rw [h.processField (fun slot => slot.alive) (fun _ => rfl) process] at halive
    exact .inl ⟨halive, h.processField (fun slot => slot.pid) (fun _ => rfl) process⟩

theorem of_slot {thread : ThreadId} {slot : ThreadSlot}
    (hthreads : after.threads = Function.update before.threads thread slot)
    (hslot : (before.threads thread).state ≠ .zombie)
    (hprocess : PidsFresh before after) (hpid : before.nextPid ≤ after.nextPid) :
    Retains before after := by
  refine .of_kept ?_ hprocess hpid
  intro other hzombie
  have hne : other ≠ thread := by
    rintro rfl
    exact hslot hzombie
  rw [hthreads, Function.update_of_ne hne]
  exact ⟨hzombie, rfl, rfl⟩

theorem of_ended {ends : ThreadId → Prop} {ended : Kernel} {process : ProcId}
    {record : ProcessSlot} (hended : EndStep ends kernel ended) (hrecord : record.alive = true →
      (kernel.processes process).alive = true ∧ record.pid = (kernel.processes process).pid) :
    Retains kernel (ended.setProcess process record) := by
  refine .of_kept ?_ ?_ (by rw [hended.rest]; rfl)
  · intro thread hzombie
    refine ⟨?_, hended.owner thread,
      hended.field (fun slot => slot.tid) (fun _ _ => rfl) (fun _ => rfl) thread⟩
    by_cases hends : ends thread
    · exact hended.zombie hends
    · have hlive := (hended.kept thread hends).live
      have hunused := (hended.kept thread hends).unused
      rw [hzombie] at hlive hunused
      rw [setProcess_threads]
      cases hstate : (ended.threads thread).state <;> simp_all [ThreadState.live]
  · refine .of_update ?_ (fun halive => .inl (hrecord halive))
    rw [← hended.processes]
    rfl

theorem of_change {event : Event} (hchange : Change event kernel after) :
    Retains kernel after := by
  cases hchange with
  | moved hmove => exact .of_sched hmove.sched
  | personal hpersonal =>
    have hstate := hpersonal.field (fun slot => slot.state) (fun _ => rfl)
    have howner := hpersonal.field (fun slot => slot.owner) (fun _ => rfl)
    have htid := hpersonal.field (fun slot => slot.tid) (fun _ => rfl)
    obtain ⟨changed, slot, rfl, -⟩ := hpersonal.setThread
    refine .of_kept ?_ (.of_eq rfl) le_rfl
    intro thread hzombie
    exact ⟨(hstate thread).trans hzombie, howner thread, htid thread⟩
  | action =>
    refine .of_kept (fun thread hzombie => ⟨hzombie, rfl, rfl⟩) (.of_update rfl ?_) le_rfl
    exact fun halive => .inl ⟨halive, rfl⟩
  | forked _ _ _ _ _ _ _ hthread =>
    refine .of_slot rfl (by rw [hthread.2]; decide) (.of_update rfl ?_) (Nat.le_succ _)
    exact fun _ => .inr ⟨rfl, Nat.lt_succ_self _⟩
  | cloned _ _ _ halive _ hthread =>
    refine .of_slot rfl (by rw [hthread.2]; decide) (.of_update rfl ?_) le_rfl
    exact fun halive => .inl ⟨halive, rfl⟩
  | clearedThread hthread => exact .of_slot rfl (by rw [hthread.2]; decide) (.of_eq rfl) le_rfl
  | clearedProcess =>
    refine .of_kept (fun thread hzombie => ⟨hzombie, rfl, rfl⟩) (.of_update rfl ?_) (Nat.le_succ _)
    intro halive
    cases halive
  | threadEnded _ halive _ hended _ => exact .of_ended hended fun _ => ⟨halive.2, rfl⟩
  | processEnded main status _ _ hended _ =>
    refine .of_ended hended ?_
    intro halive
    cases halive
  | @reaped process hprocess hdead hcurrent =>
    refine ⟨?_, .of_update rfl ?_, le_rfl⟩
    · intro thread owner hzombie howner
      by_cases hsame : owner = process
      · subst hsame
        refine .inr ?_
        simp [setProcess, ProcessSlot.zero, Process.zero]
      · refine .inl ?_
        have hkept : ¬(thread ≠ 0 ∧ (kernel.threads thread).owner = some process) := by
          rintro ⟨-, howned⟩
          exact hsame (Option.some.inj (howner.symm.trans howned))
        dsimp only
        rw [if_neg hkept]
        exact ⟨hzombie, howner, rfl⟩
    · intro halive
      cases halive

end Retains

theorem Retains.of_exec (answers : Answers) (h : kernel.GroupsCounted)
    (hlive : kernel.running.state.live = true) :
    Retains kernel (kernel.processExecCurrent answers).2 := by
  rcases processExecCurrent_mainLive answers h hlive with
    ⟨-, hsame⟩ | ⟨process, staged, main, -, -, -, -, hmember, hexec⟩
  · rw [hsame]
    exact .of_kept (fun _ hzombie => ⟨hzombie, rfl, rfl⟩) (.of_eq rfl) le_rfl
  rw [hexec]
  refine .of_kept ?_ (.of_update rfl fun halive => .inl ⟨halive, rfl⟩) le_rfl
  intro thread hzombie
  have hcurrent : thread ≠ kernel.current := by
    rintro rfl
    rw [running, hzombie] at hlive
    cases hlive
  have hmain : thread ≠ main := by
    rintro rfl
    rw [mem_liveThreads, hzombie] at hmember
    cases hmember.2
  have hslot : ((kernel.execCaller process staged).madeCurrent main).threads thread =
      kernel.threads thread := by
    simp only [execCaller, setThread_threads, if_neg hmain, if_neg hcurrent, setProcess_threads]
  rw [hslot]
  exact ⟨hzombie, rfl, rfl⟩

structure Held (process : ProcId) (pid : ℕ) (thread : ThreadId) (tid : ℕ) (kernel : Kernel) :
    Prop where
  old : pid < kernel.nextPid
  zombie : (kernel.processes process).alive = true → (kernel.processes process).pid = pid →
    (kernel.threads thread).state = .zombie ∧
      (kernel.threads thread).owner = some process ∧ (kernel.threads thread).tid = tid

theorem Held.of_retains (h : Held process pid thread tid kernel)
    (hretains : Retains kernel after) : Held process pid thread tid after := by
  refine ⟨h.old.trans_le hretains.nextPid, ?_⟩
  intro halive hpid
  rcases hretains.process process halive with ⟨hbefore, hsame⟩ | ⟨hnew, -⟩
  · obtain ⟨hzombie, howner, htid⟩ := h.zombie hbefore (hsame.symm.trans hpid)
    rcases hretains.zombie thread process hzombie howner with ⟨hstate, hkept, hsameTid⟩ | hdead
    · exact ⟨hstate, hkept, hsameTid.trans htid⟩
    · rw [halive] at hdead
      cases hdead
  · have hold := h.old
    omega

theorem step_retains {inv : Kernel → Prop} {next : Kernel} {event : Event}
    (hretains : ∀ before after, inv before → Retains before after → inv after)
    (hpositioned : kernel.Positioned) (hcounted : kernel.GroupsCounted) (h : inv kernel)
    (hstep : kernel.step event = some next) : next.GroupsCounted ∧ inv next := by
  have hboth : kernel.GroupsCounted ∧ inv kernel := ⟨hcounted, h⟩
  refine @step_invariant (fun kernel => kernel.GroupsCounted ∧ inv kernel) _ _ _ ?_ ?_
    hpositioned hboth hstep
  · rintro before after ⟨hcounted, hbefore⟩ htransition
    refine ⟨hcounted.afterTransition htransition, ?_⟩
    cases htransition with
    | changed hchange => exact hretains before after hbefore (.of_change hchange)
    | switched hswitch => exact hretains before after hbefore (.of_sched hswitch.sched)
  · rintro user answers - - hlive ⟨hcounted, hentered⟩
    exact ⟨hcounted.afterExec answers hlive,
      hretains _ _ hentered (.of_exec answers hcounted hlive)⟩

/-- The counts are right and no live process has a pid that is still to be
given out. -/
structure Accounted (kernel : Kernel) : Prop where
  positioned : kernel.Positioned
  counted : kernel.GroupsCounted
  below : ∀ process, (kernel.processes process).alive = true →
    (kernel.processes process).pid < kernel.nextPid

theorem PidsFresh.below (h : PidsFresh before after) (hpid : before.nextPid ≤ after.nextPid)
    (hbelow : ∀ process, (before.processes process).alive = true →
      (before.processes process).pid < before.nextPid) (process : ProcId)
    (halive : (after.processes process).alive = true) :
    (after.processes process).pid < after.nextPid := by
  rcases h process halive with ⟨hbefore, hsame⟩ | ⟨hnew, hlt⟩
  · rw [hsame]
    exact (hbelow process hbefore).trans_le hpid
  · omega

theorem Accounted.afterStep {kernel next : Kernel} {event : Event} (h : kernel.Accounted)
    (hstep : kernel.step event = some next) : next.Accounted := by
  obtain ⟨hcounted, hbelow⟩ := step_retains
    (fun before after hbelow hretains => hretains.process.below hretains.nextPid hbelow)
    h.positioned h.counted h.below hstep
  exact ⟨step_positioned h.positioned hstep, hcounted, hbelow⟩

theorem Accounted.launched (root entry stack : Word) : (launched root entry stack).Accounted := by
  refine ⟨.launched root entry stack, .launched root entry stack, ?_⟩
  intro process
  simp only [NPKernel.launched]
  split_ifs <;> simp [ProcessSlot.zero, Process.zero]

theorem Accounted.afterRun (h : kernel.Accounted)
    (hrun : run step kernel events = some last) : last.Accounted :=
  invariant_run (fun _ _ _ h (_ : True) hstep => h.afterStep hstep) h
    (Guarded.of_forall fun _ _ _ => trivial) hrun

theorem Held.afterRun (h : Held process pid thread tid kernel)
    (haccounted : kernel.Accounted) (hrun : run step kernel events = some last) :
    Held process pid thread tid last := by
  have hpreserve : ∀ kernel event next,
      kernel.Accounted ∧ Held process pid thread tid kernel → True →
      kernel.step event = some next → next.Accounted ∧ Held process pid thread tid next := by
    rintro kernel event next ⟨haccounted, h⟩ - hstep
    refine ⟨haccounted.afterStep hstep, ?_⟩
    exact (step_retains (fun _ _ h hretains => h.of_retains hretains) haccounted.positioned
      haccounted.counted h hstep).2
  exact (invariant_run hpreserve ⟨haccounted, h⟩ (Guarded.of_forall fun _ _ _ => trivial) hrun).2

theorem Accounted.zombie_kept (h : kernel.Accounted) (hrun : run step kernel events = some last)
    (halive : (kernel.processes process).alive = true)
    (hexited : (kernel.threads thread).state = .zombie)
    (howner : (kernel.threads thread).owner = some process)
    (hstill : (last.processes process).alive = true)
    (hpid : (last.processes process).pid = (kernel.processes process).pid) :
    (last.threads thread).state = .zombie ∧ (last.threads thread).owner = some process ∧
      (last.threads thread).tid = (kernel.threads thread).tid := by
  have hheld : Held process (kernel.processes process).pid thread (kernel.threads thread).tid
      kernel := ⟨h.below process halive, fun _ _ => ⟨hexited, howner, rfl⟩⟩
  exact (hheld.afterRun h hrun).zombie hstill hpid

end Kernel

/-- User mode is entered only for a running thread of a process that has not ended. -/
theorem user_thread_alive {root entry stack : Word} {events : List Event} {last : Kernel}
    (hrun : run Kernel.step (launched root entry stack) events = some last)
    (hmode : last.mode = .user) :
    last.running.state = .running ∧ ∀ process, process ≠ kernelProcess →
      last.processCurrent = some process → (last.processes process).alive = true := by
  have h := (Kernel.Accounted.launched root entry stack).afterRun hrun
  have hstate : last.running.state = .running := h.positioned.at_mode hmode
  refine ⟨hstate, ?_⟩
  intro process hprocess howner
  have hmember : last.current ∈ last.liveThreads process := by
    rw [Kernel.mem_liveThreads]
    exact ⟨howner, congrArg ThreadState.live hstate⟩
  exact h.counted.alive_of_live hprocess hmember

/-- The first process forks, and the child exits as soon as it runs. -/
def forkExitRun : List Event :=
  [.call 57 [], .timer (.calling 0 []) (willing []), .call 60 [0], .yield (willing [])]

theorem user_thread_alive_forked :
    ∃ last, run Kernel.step sampleKernel forkExitRun = some last ∧
      (last.processes 2).pid = 3 ∧ (last.processes 2).alive = false ∧
      last.running.state = .running ∧ (last.processes 1).alive = true := by
  have hfacts : (run Kernel.step sampleKernel forkExitRun).map
      (fun last => (last.mode, last.processCurrent, (last.processes 2).pid,
        (last.processes 2).alive)) = some (.user, some 1, 3, false) := by
    decide +kernel
  obtain ⟨last, hrun, hvalues⟩ := Option.map_eq_some_iff.1 hfacts
  simp only [Prod.mk.injEq] at hvalues
  obtain ⟨hmode, hcurrent, hpid, hdead⟩ := hvalues
  obtain ⟨hstate, halive⟩ := user_thread_alive hrun hmode
  exact ⟨last, hrun, hpid, hdead, hstate, halive 1 (by decide) hcurrent⟩

/-- The first process makes a second thread, which exits. -/
def cloneExitRun : List Event :=
  [.call 56 [0x10f00, 0x7fff0000, 0, 0, 0], .timer (.calling 0 []) (willing []), .call 60 [0],
    .yield (willing [])]

/-- An exited thread stays in its slot as long as its process lives: whatever
happens after a thread has ended, while the process with its pid is alive the
thread is a zombie with its old identifier, and no thread is ever allocated in
its place. -/
theorem exited_thread_keeps_its_slot {root entry stack : Word} {events later : List Event}
    {middle last : Kernel} (hrun : run Kernel.step (launched root entry stack) events = some middle)
    (hlater : run Kernel.step middle later = some last) {process : ProcId} {thread : ThreadId}
    (halive : (middle.processes process).alive = true)
    (hexited : (middle.threads thread).state = .zombie)
    (howner : (middle.threads thread).owner = some process)
    (hstill : (last.processes process).alive = true)
    (hpid : (last.processes process).pid = (middle.processes process).pid) :
    (last.threads thread).state = .zombie ∧ (last.threads thread).owner = some process ∧
      (last.threads thread).tid = (middle.threads thread).tid ∧
      ∀ slot taken, last.allocateThread = some (slot, taken) → slot ≠ thread := by
  have hmiddle := (Kernel.Accounted.launched root entry stack).afterRun hrun
  obtain ⟨hzombie, hsameOwner, htid⟩ :=
    hmiddle.zombie_kept hlater halive hexited howner hstill hpid
  refine ⟨hzombie, hsameOwner, htid, ?_⟩
  rintro slot taken hallocated rfl
  have hunused := (last.allocateThread_some hallocated).2.1
  rw [hzombie] at hunused
  cases hunused

theorem exited_thread_keeps_its_slot_cloned :
    ∃ middle last, run Kernel.step sampleKernel cloneExitRun = some middle ∧
      run Kernel.step middle [.call 56 [0x10f00, 0x7fff0000, 0, 0, 0]] = some last ∧
      (last.processes 1).alive = true ∧ (last.threads 3).state = .zombie := by
  have hmiddle : (run Kernel.step sampleKernel cloneExitRun).bind
      (fun middle => (run Kernel.step middle [.call 56 [0x10f00, 0x7fff0000, 0, 0, 0]]).map
        fun last => ((middle.processes 1).alive, (middle.threads 3).state,
          (middle.threads 3).owner, (last.processes 1).alive,
          (last.processes 1).pid == (middle.processes 1).pid)) =
      some (true, .zombie, some 1, true, true) := by
    decide +kernel
  obtain ⟨middle, hrun, hlast⟩ := Option.bind_eq_some_iff.1 hmiddle
  obtain ⟨last, hlater, hfacts⟩ := Option.map_eq_some_iff.1 hlast
  simp only [Prod.mk.injEq, beq_iff_eq] at hfacts
  obtain ⟨halive, hexited, howner, hstill, hpid⟩ := hfacts
  exact ⟨middle, last, hrun, hlater, hstill,
    (exited_thread_keeps_its_slot hrun hlater halive hexited howner hstill hpid).1⟩

/-- The second thread has exited and no longer runs, and its slot is not unused
again before the process ends. -/
theorem exited_thread_slot_not_reused :
    ∃ middle, run Kernel.step sampleKernel cloneExitRun = some middle ∧
      (middle.processes 1).alive = true ∧ (middle.threads 3).owner = some 1 ∧
      middle.current ≠ 3 ∧
      ∀ later last, run Kernel.step middle later = some last →
        (last.processes 1).alive = true →
        (last.processes 1).pid = (middle.processes 1).pid →
        (last.threads 3).state ≠ .unused := by
  have hfacts : (run Kernel.step sampleKernel cloneExitRun).map
      (fun last => ((last.processes 1).alive, (last.threads 3).owner, last.current,
        (last.threads 3).state)) = some (true, some 1, 2, .zombie) := by
    decide +kernel
  obtain ⟨middle, hrun, hvalues⟩ := Option.map_eq_some_iff.1 hfacts
  simp only [Prod.mk.injEq] at hvalues
  obtain ⟨halive, howner, hcurrent, hzombie⟩ := hvalues
  refine ⟨middle, hrun, halive, howner, by rw [hcurrent]; decide, ?_⟩
  intro later last hlater hstill hpid hunused
  have hmiddle := (Kernel.Accounted.launched _ _ _).afterRun hrun
  have hkept := (hmiddle.zombie_kept hlater halive hzombie howner hstill hpid).1
  rw [hunused] at hkept
  cases hkept

end NPKernel
