import NPKernel.RunningThread

/-!
# Children and their parents

An exited child stays in the process table until its parent waits for it.  An
exit does nothing for the children of the exiting process, so a child whose
parent is gone keeps its slot.  In runs in which no process ends before its
children have been reaped, every forked process in the table has a parent that
is alive.
-/

namespace NPKernel

open RegisterStack GuardedRuns

namespace Kernel

/-- A process slot through changes that fork nothing: it holds the same
process, which may have ended, or it is free. -/
def SlotKept (before after : ProcessSlot) : Prop :=
  (after.pid = before.pid ∧ after.parentPid = before.parentPid ∧
      (after.alive = true → before.alive = true)) ∨
    (after.pid = 0 ∧ after.alive = false)

theorem SlotKept.refl (slot : ProcessSlot) : SlotKept slot slot :=
  .inl ⟨rfl, rfl, id⟩

theorem SlotKept.trans {first second third : ProcessSlot} (h : SlotKept first second)
    (h' : SlotKept second third) : SlotKept first third := by
  rcases h' with ⟨hpid', hparent', halive'⟩ | hfree'
  · rcases h with ⟨hpid, hparent, halive⟩ | ⟨hpid, hdead⟩
    · exact .inl ⟨hpid'.trans hpid, hparent'.trans hparent, fun h => halive (halive' h)⟩
    · refine .inr ⟨hpid'.trans hpid, ?_⟩
      by_contra halive
      rw [halive' (by simpa using halive)] at hdead
      cases hdead
  · exact .inr hfree'

structure NoFork (before after : Kernel) : Prop where
  slot : ∀ process, SlotKept (before.processes process) (after.processes process)
  nextPid : before.nextPid ≤ after.nextPid

theorem NoFork.refl (kernel : Kernel) : NoFork kernel kernel :=
  ⟨fun _ => .refl _, le_rfl⟩

theorem NoFork.trans {first second third : Kernel} (h : NoFork first second)
    (h' : NoFork second third) : NoFork first third :=
  ⟨fun process => (h.slot process).trans (h'.slot process), h.nextPid.trans h'.nextPid⟩

theorem NoFork.of_setProcess {before after : Kernel} {process : ProcId} {slot : ProcessSlot}
    (hprocesses : after.processes = (before.setProcess process slot).processes)
    (hpid : before.nextPid ≤ after.nextPid)
    (hslot : SlotKept (before.processes process) slot) : NoFork before after := by
  refine ⟨?_, hpid⟩
  intro other
  rw [hprocesses, setProcess_processes]
  split
  next h =>
    subst h
    exact hslot
  · exact .refl _

theorem NoFork.of_processes {before after : Kernel}
    (hprocesses : after.processes = before.processes)
    (hpid : after.nextPid = before.nextPid) : NoFork before after :=
  ⟨fun _ => hprocesses ▸ .refl _, hpid.ge⟩

theorem NoFork.of_sched {before after : Kernel} (h : SchedStep before after) :
    NoFork before after := by
  refine ⟨?_, h.nextPid.ge⟩
  intro process
  refine .inl ⟨?_, ?_, ?_⟩
  · exact h.processField (fun slot => slot.pid) (fun _ => rfl) process
  · exact h.processField (fun slot => slot.parentPid) (fun _ => rfl) process
  · exact (h.processField (fun slot => slot.alive) (fun _ => rfl) process).symm.trans

def ForksNothing : Event → Prop
  | .syscall user _ => user.syscallFrame.syscall ≠ .fork
  | _ => True

theorem Change.noFork {event : Event} {before after : Kernel} (hevent : ForksNothing event)
    (h : Change event before after) : NoFork before after := by
  cases h with
  | moved hmove => exact .of_sched hmove.sched
  | personal hpersonal =>
    obtain ⟨thread, slot, rfl, -⟩ := hpersonal.setThread
    exact .of_processes rfl rfl
  | action | cloned => exact .of_setProcess rfl le_rfl (.inl ⟨rfl, rfl, id⟩)
  | forked _ hsyscall hcall =>
    subst hsyscall
    exact absurd hcall hevent
  | clearedThread => exact .of_processes rfl rfl
  | clearedProcess => exact .of_setProcess rfl (Nat.le_succ _) (.inr ⟨rfl, rfl⟩)
  | threadEnded _ _ _ hended =>
    rw [hended.rest]
    exact .of_setProcess rfl le_rfl (.inl ⟨rfl, rfl, id⟩)
  | processEnded _ _ _ _ hended =>
    rw [hended.rest]
    refine .of_setProcess rfl le_rfl (.inl ⟨rfl, rfl, ?_⟩)
    intro halive
    cases halive
  | reaped => exact .of_setProcess rfl le_rfl (.inr ⟨rfl, rfl⟩)

theorem Transitions.noFork {event : Event} {before after : Kernel} (hevent : ForksNothing event)
    (h : Transitions event before after) : NoFork before after := by
  induction h with
  | refl => exact .refl _
  | tail _ htransition ih =>
    cases htransition with
    | changed hchange => exact ih.trans (hchange.noFork hevent)
    | switched hswitch => exact ih.trans (.of_sched hswitch.sched)

theorem processExecCurrent_noFork (answers : Answers) (kernel : Kernel) :
    NoFork kernel (kernel.processExecCurrent answers).2 := by
  have hslot := processExecCurrent_processField answers kernel
    (fun slot => (slot.pid, slot.parentPid, slot.alive)) fun _ _ _ => rfl
  simp only [Prod.mk.injEq] at hslot
  refine ⟨?_, (processExecCurrent_fields answers kernel).1.ge⟩
  intro process
  obtain ⟨hpid, hparent, halive⟩ := hslot process
  exact .inl ⟨hpid, hparent, halive.symm.trans⟩

theorem enterSyscall_noFork (kernel : Kernel) (frame : SyscallFrame) :
    NoFork kernel (kernel.enterSyscall frame) := by
  have hchanges : Changes .kernelTick kernel _ := enterSyscall_changes kernel frame
  have htick : ForksNothing .kernelTick := trivial
  exact Transitions.noFork htick hchanges.transitions

/-! ## Parents that are alive -/

def Childless (kernel : Kernel) (process : ProcId) : Prop :=
  ∀ child, (kernel.processes child).pid ≠ 0 →
    (kernel.processes child).parentPid ≠ (kernel.processes process).pid

/-- The pids 1 and 2 are the kernel and the first process; all others are
given out by fork. -/
structure ParentsAlive (kernel : Kernel) : Prop where
  nextPid : 2 < kernel.nextPid
  used : ∀ process, (kernel.processes process).alive = true → (kernel.processes process).pid ≠ 0
  parent : ∀ process, 2 < (kernel.processes process).pid →
    ∃ parent, (kernel.processes parent).pid = (kernel.processes process).parentPid ∧
      (kernel.processes parent).alive = true

namespace ParentsAlive

variable {kernel after : Kernel}

theorem afterNoFork (h : kernel.ParentsAlive) (hstep : NoFork kernel after)
    (hended : ∀ process, (kernel.processes process).alive = true →
      (after.processes process).alive = false → kernel.Childless process) :
    after.ParentsAlive := by
  refine ⟨h.nextPid.trans_le hstep.nextPid, ?_, ?_⟩
  · intro process halive
    rcases hstep.slot process with ⟨hpid, -, hbefore⟩ | ⟨-, hdead⟩
    · rw [hpid]
      exact h.used process (hbefore halive)
    · rw [halive] at hdead
      cases hdead
  · intro process hforked
    rcases hstep.slot process with ⟨hpid, hparentPid, -⟩ | ⟨hpid, -⟩
    · rw [hpid] at hforked
      obtain ⟨parent, hparent, halive⟩ := h.parent process hforked
      have hstill : (after.processes parent).alive = true := by
        by_contra hdead
        have hchildless := hended parent halive (by simpa using hdead)
        exact hchildless process (by omega) hparent.symm
      rcases hstep.slot parent with ⟨hsame, -, -⟩ | ⟨-, hdead⟩
      · exact ⟨parent, by rw [hsame, hparent, hparentPid], hstill⟩
      · rw [hstill] at hdead
        cases hdead
    · omega

theorem afterFork (h : kernel.ParentsAlive) (answers : Answers) (frame : SyscallFrame) :
    (kernel.processFork answers frame).2.ParentsAlive := by
  rcases processFork_cases answers kernel frame with hsame |
    ⟨parent, child, thread, -, hparent, -, hfree, -, hundone | hforked⟩
  · rw [hsame]
    exact h
  · rw [hundone]
    refine h.afterNoFork (.of_setProcess rfl (Nat.le_succ _) (.inr ⟨rfl, rfl⟩)) ?_
    intro process halive hdead
    have hne : process ≠ child := by
      rintro rfl
      exact h.used process halive (freeProcess_some hfree).2
    simp [hne, halive] at hdead
  · rw [hforked]
    have hchild : ∀ process, (kernel.processes process).alive = true → process ≠ child := by
      rintro process halive rfl
      exact h.used process halive (freeProcess_some hfree).2
    have hkept : ∀ process, (kernel.processes process).alive = true →
        ((kernel.setThread thread (kernel.forkThread parent child thread kernel.nextTid
          answers.vmmCloneUserSpace frame)).setProcess child
          (kernel.forkProcess parent thread answers.vmmCloneUserSpace)).processes process =
            kernel.processes process := by
      intro process halive
      simp [hchild process halive]
    have hnext := h.nextPid
    refine ⟨by dsimp only; omega, ?_, ?_⟩
    · intro process
      dsimp only
      rw [setProcess_processes]
      split
      · intro _
        exact (Nat.pos_of_ne_zero (by omega : kernel.nextPid ≠ 0)).ne'
      · exact h.used process
    · intro process
      dsimp only
      rw [setProcess_processes]
      split
      · intro _
        refine ⟨parent, ?_, ?_⟩ <;> rw [hkept parent hparent]
        · rfl
        · exact hparent
      · intro hpid
        obtain ⟨alive, hpid, halive⟩ := h.parent process hpid
        refine ⟨alive, ?_, ?_⟩ <;> rw [hkept alive halive]
        · exact hpid
        · exact halive

theorem launched (root entry stack : Word) : (launched root entry stack).ParentsAlive := by
  refine ⟨Nat.lt_succ_self 2, ?_, ?_⟩
  · intro process
    simp only [NPKernel.launched]
    split_ifs <;> simp [ProcessSlot.zero, Process.zero]
  · intro process
    simp only [NPKernel.launched]
    split_ifs <;> simp [ProcessSlot.zero, Process.zero]

end ParentsAlive

/-- The process ends during the event, by `exit`, `exit_group` or a signal. -/
def Ends (kernel : Kernel) (event : Event) (process : ProcId) : Prop :=
  (kernel.processes process).alive = true ∧
    ∃ next, kernel.step event = some next ∧ (next.processes process).alive = false

def EndsChildless (kernel : Kernel) (event : Event) : Prop :=
  ∀ process, kernel.Ends event process → kernel.Childless process

theorem ParentsAlive.afterStep {kernel next : Kernel} {event : Event} (h : kernel.ParentsAlive)
    (hpositioned : kernel.Positioned) (hends : kernel.EndsChildless event)
    (hstep : kernel.step event = some next) : next.ParentsAlive := by
  have hended : ∀ process, (kernel.processes process).alive = true →
      (next.processes process).alive = false → kernel.Childless process :=
    fun process halive hdead => hends process ⟨halive, next, hstep, hdead⟩
  by_cases hfork : ForksNothing event
  · apply h.afterNoFork _ hended
    rcases step_transitions hpositioned hstep with htransitions |
      ⟨user, answers, rfl, -, -, rfl⟩
    · exact Transitions.noFork hfork htransitions
    · exact (enterSyscall_noFork kernel _).trans (processExecCurrent_noFork answers _)
  · cases event with
    | syscall user answers =>
      have hcall : user.syscallFrame.syscall = .fork := not_not.mp hfork
      simp only [step] at hstep
      split at hstep
      · injection hstep with hnext
        have hentered : (kernel.enterSyscall user.syscallFrame).ParentsAlive := by
          apply h.afterNoFork (enterSyscall_noFork kernel _)
          intro process halive hdead
          rw [enterSyscall_alive _ halive] at hdead
          cases hdead
        rw [← hnext]
        simp only [syscallDispatch, hcall, CallOutcome.kernel]
        exact hentered.afterFork answers user.syscallFrame
      · cases hstep
    | _ => exact absurd trivial hfork

end Kernel

/-- In every run in which no process ends before its children have been
reaped, every process in the table that fork created, exited or not, has a
parent that is alive. -/
theorem forked_processes_have_live_parents {root entry stack : Word} {events : List Event}
    {last : Kernel}
    (hguard : Guarded Kernel.step Kernel.EndsChildless (launched root entry stack) events)
    (hrun : run Kernel.step (launched root entry stack) events = some last)
    (child : ProcId) (hforked : 2 < (last.processes child).pid) :
    ∃ parent, (last.processes parent).pid = (last.processes child).parentPid ∧
      (last.processes parent).alive = true := by
  have hlast : last.ParentsAlive := by
    refine Kernel.invariant_of_steps (.launched root entry stack) hguard hrun ?_
    intro kernel event next hlive h hevent hstep
    exact h.afterStep hlive hevent hstep
  exact hlast.parent child hforked

instance (kernel : Kernel) (process : ProcId) : Decidable (kernel.Childless process) := by
  unfold Kernel.Childless
  infer_instance

instance (kernel : Kernel) (event : Event) (process : ProcId) :
    Decidable (kernel.Ends event process) :=
  decidable_of_iff
    ((kernel.processes process).alive = true ∧
      (kernel.step event).map (fun next => (next.processes process).alive) = some false)
    (by simp [Kernel.Ends, Option.map_eq_some_iff])

instance (kernel : Kernel) (event : Event) : Decidable (kernel.EndsChildless event) := by
  unfold Kernel.EndsChildless
  infer_instance

def waitedChildRun : List Event :=
  [.call 57 [], .call 61 [-1, 0, 0], .yield (willing []), .call 231 [7]]

theorem forked_processes_have_live_parents_waited :
    ∃ last, run Kernel.step sampleKernel waitedChildRun = some last ∧
      (last.processes 2).alive = false ∧
      ∃ parent, (last.processes parent).pid = (last.processes 2).parentPid ∧
        (last.processes parent).alive = true := by
  have hfacts : (run Kernel.step sampleKernel waitedChildRun).map
      (fun last => ((last.processes 2).pid, (last.processes 2).alive)) = some (3, false) := by
    decide +kernel
  obtain ⟨last, hrun, hvalues⟩ := Option.map_eq_some_iff.1 hfacts
  simp only [Prod.mk.injEq] at hvalues
  have hguard : Guarded Kernel.step Kernel.EndsChildless sampleKernel waitedChildRun := by
    decide +kernel
  exact ⟨last, hrun, hvalues.2,
    forked_processes_have_live_parents hguard hrun 2 (by rw [hvalues.1]; decide)⟩

def orphanRun : List Event :=
  [.call 57 [], .call 231 [0], .yield (willing []), .call 231 [7]]

/-- The child's slot is taken and its parent is not alive. -/
theorem orphan_keeps_slot :
    ¬ ∀ (events : List Event) (last : Kernel) (child : ProcId),
      run Kernel.step sampleKernel events = some last →
      2 < (last.processes child).pid → (last.processes child).alive = false →
      ∃ parent, (last.processes parent).pid = (last.processes child).parentPid ∧
        (last.processes parent).alive = true := by
  intro h
  have hfacts : (run Kernel.step sampleKernel orphanRun).map
      (fun last => ((last.processes 2).pid, (last.processes 2).alive,
        decide (∃ parent, (last.processes parent).pid = (last.processes 2).parentPid ∧
          (last.processes parent).alive = true))) = some (3, false, false) := by
    decide +kernel
  obtain ⟨last, hrun, hvalues⟩ := Option.map_eq_some_iff.1 hfacts
  simp only [Prod.mk.injEq, decide_eq_false_iff_not] at hvalues
  obtain ⟨hpid, hexited, hparent⟩ := hvalues
  exact hparent (h _ last 2 hrun (by rw [hpid]; decide) hexited)

end NPKernel
