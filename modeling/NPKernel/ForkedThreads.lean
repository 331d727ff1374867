import NPKernel.KernelChanges

/-!
# The thread of a forked child

`process_fork` builds the first frame of the child from the caller's syscall
frame, but copies the FS and GS bases and the blocked mask from the main
thread of the process.
-/

namespace NPKernel

open RegisterStack GuardedRuns

/-- The two exits through which a thread with an interrupt frame first reaches
user mode: `restore_user_frame_from_kernel`, from `scheduler_yield`, and the
end of `irq_timer_stub`, after `scheduler_preempt`. -/
def interruptFrameExits : List (List Instr) :=
  [restoreUserFrameFromKernel, irqTimerExit]

/-- A ready thread that will start from its frame with these registers and
IRET words. -/
structure StartsWith (thread : ThreadId) (slot : ThreadSlot) (regs : RegisterFile)
    (iret : IretFrame) : Prop where
  ready : slot.state = .ready ∧ slot.privilegeRing = 3
  frame : slot.savedInterruptFrame = some (.stackTop thread) ∧ slot.savedFrameKind = .interrupt
  restored : ∀ code ∈ interruptFrameExits, ∀ cpu : Cpu, cpu.stack = slot.frame →
    (cpu.run code).regs = regs ∧ iretFrame (cpu.run code).stack = iret

/-- The thread of a child of a fork is the caller, but for RAX. -/
structure CopiesCaller (caller : ThreadSlot) (frame : SyscallFrame) (thread : ThreadId)
    (slot : ThreadSlot) : Prop where
  starts : StartsWith thread slot (Function.update frame.regs .rax 0) frame.iret
  fsBase : slot.fsBase = caller.fsBase
  gsBase : slot.gsBase = caller.gsBase
  blocked : slot.signalBlocked = caller.signalBlocked

theorem popAll_interruptOrder_wrapper (frame : SyscallFrame) (regs : RegisterFile) :
    (popAll interruptOrder regs frame.wrapper).1 = frame.regs := by
  funext r
  have hslot := popAll_slot interruptOrder regs frame.wrapper interruptOrder_nodup
    (mem_interruptOrder r)
  rw [hslot]
  cases r <;> rfl

theorem run_interruptFrameExits (frame : SyscallFrame) {cpu : Cpu}
    (hstack : cpu.stack = frame.wrapper) {code : List Instr} (hcode : code ∈ interruptFrameExits) :
    (cpu.run code).regs = frame.regs ∧ iretFrame (cpu.run code).stack = frame.iret := by
  have hrestore : ∀ loaded : Cpu, loaded.stack = frame.wrapper →
      (loaded.run restoreGprs).regs = frame.regs ∧
        iretFrame (loaded.run restoreGprs).stack = frame.iret := by
    intro loaded hloaded
    rw [restoreGprs, Cpu.run_map_pop, hloaded, popAll_interruptOrder_wrapper, popAll_stack]
    exact ⟨rfl, rfl⟩
  simp only [interruptFrameExits, List.mem_cons, List.not_mem_nil, or_false] at hcode
  rcases hcode with rfl | rfl
  · exact hrestore cpu.swapgs hstack
  · rw [irqTimerExit, Cpu.run_append]
    apply hrestore
    simp only [Cpu.run_cons, Cpu.run_nil, Cpu.exec]
    split <;> exact hstack

namespace Kernel

/-- The main thread of the caller's process has the caller's bases and mask. -/
def MainLikeCaller (kernel : Kernel) : Prop :=
  ∃ process, kernel.processCurrent = some process ∧
    let main := (kernel.processes process).mainThread.elim ThreadSlot.zero kernel.threads
    main.fsBase = kernel.running.fsBase ∧ main.gsBase = kernel.running.gsBase ∧
      main.signalBlocked = kernel.running.signalBlocked

theorem processFork_child {answers : Answers} {kernel after : Kernel} {frame : SyscallFrame}
    {child : ProcId} (hfork : (kernel.processFork answers frame).2 = after)
    (hfree : (kernel.processes child).pid = 0) (htaken : (after.processes child).pid ≠ 0) :
    ∃ parent thread, kernel.processCurrent = some parent ∧
      after.processes child = kernel.forkProcess parent thread answers.vmmCloneUserSpace ∧
      after.threads thread =
        kernel.forkThread parent child thread kernel.nextTid answers.vmmCloneUserSpace frame := by
  rcases processFork_cases answers kernel frame with hsame |
    ⟨parent, free, thread, hparent, -, -, -, -, hundone | hforked⟩
  · rw [hsame] at hfork
    exact absurd (hfork ▸ hfree) htaken
  · rw [hundone] at hfork
    subst hfork
    refine absurd ?_ htaken
    dsimp only
    rw [setProcess_processes]
    split
    · rfl
    · exact hfree
  · rw [hforked] at hfork
    subst hfork
    by_cases hchild : child = free
    · subst hchild
      exact ⟨parent, thread, hparent, by simp, by simp⟩
    · exact absurd (by simpa [hchild] using hfree) htaken

end Kernel

/-- The child of a successful `process_fork` starts as a copy of the thread
that called it exactly when the main thread has the caller's bases and mask. -/
theorem fork_copies_caller_iff {answers : Answers} {kernel after : Kernel}
    {frame : SyscallFrame} {child : ProcId} {thread : ThreadId}
    (hfork : (kernel.processFork answers frame).2 = after)
    (hfree : (kernel.processes child).pid = 0) (htaken : (after.processes child).pid ≠ 0)
    (hmain : (after.processes child).mainThread = some thread) :
    CopiesCaller kernel.running frame thread (after.threads thread) ↔ kernel.MainLikeCaller := by
  obtain ⟨parent, main, hparent, hprocess, hthread⟩ :=
    Kernel.processFork_child hfork hfree htaken
  obtain rfl : main = thread := by
    rw [hprocess] at hmain
    exact Option.some.inj hmain
  rw [hthread]
  have hstarts : StartsWith main
      (kernel.forkThread parent child main kernel.nextTid answers.vmmCloneUserSpace frame)
      (Function.update frame.regs .rax 0) frame.iret := by
    refine ⟨⟨rfl, rfl⟩, ⟨rfl, rfl⟩, ?_⟩
    intro code hcode cpu hstack
    exact run_interruptFrameExits { regs := Function.update frame.regs .rax 0, iret := frame.iret }
      hstack hcode
  have hfields : ∀ field : ThreadSlot → Word, field ThreadSlot.zero = 0 →
      (((kernel.processes parent).mainThread.map kernel.threads).map field).getD 0 =
        field ((kernel.processes parent).mainThread.elim ThreadSlot.zero kernel.threads) := by
    intro field hzero
    cases (kernel.processes parent).mainThread with
    | none => exact hzero.symm
    | some _ => rfl
  constructor
  · intro h
    refine ⟨parent, hparent, ?_, ?_, ?_⟩
    · exact (hfields (fun slot => slot.fsBase) rfl).symm.trans h.fsBase
    · exact (hfields (fun slot => slot.gsBase) rfl).symm.trans h.gsBase
    · exact (hfields (fun slot => slot.signalBlocked) rfl).symm.trans h.blocked
  · rintro ⟨process, hcurrent, hfs, hgs, hblocked⟩
    obtain rfl : parent = process := Option.some.inj (hparent.symm.trans hcurrent)
    refine ⟨hstarts, ?_, ?_, ?_⟩
    · exact (hfields (fun slot => slot.fsBase) rfl).trans hfs
    · exact (hfields (fun slot => slot.gsBase) rfl).trans hgs
    · exact (hfields (fun slot => slot.signalBlocked) rfl).trans hblocked

/-- The first thread makes a second one, which runs next. -/
def secondThreadRun (flags : Word) : List Event :=
  [.call 56 [flags, 0x7fff0000, 0, 0x600000, 0], .call 24 [], .yield (willing [])]

def Kernel.forked (kernel : Kernel) : Kernel :=
  (kernel.processFork (willing []) (UserState.calling 57 []).syscallFrame).2

theorem fork_copies_caller_iff_second :
    ∃ kernel, run Kernel.step sampleKernel (secondThreadRun 0x10f00) = some kernel ∧
      kernel.current = 3 ∧ (kernel.processes 1).mainThread = some 2 ∧
      CopiesCaller kernel.running (UserState.calling 57 []).syscallFrame 4
        (kernel.forked.threads 4) := by
  have hfacts : (run Kernel.step sampleKernel (secondThreadRun 0x10f00)).map
      (fun kernel => ((kernel.current, (kernel.processes 1).mainThread),
        ((kernel.processes 2).pid, (kernel.forked.processes 2).pid,
          (kernel.forked.processes 2).mainThread), kernel.processCurrent,
        decide ((kernel.threads 2).fsBase = kernel.running.fsBase ∧
          (kernel.threads 2).gsBase = kernel.running.gsBase ∧
          (kernel.threads 2).signalBlocked = kernel.running.signalBlocked))) =
      some ((3, some 2), (0, 3, some 4), some 1, true) := by
    decide +kernel
  obtain ⟨kernel, hrun, hvalues⟩ := Option.map_eq_some_iff.1 hfacts
  simp only [Prod.mk.injEq, decide_eq_true_eq] at hvalues
  obtain ⟨⟨hcurrent, hfirst⟩, ⟨hfree, htaken, hmain⟩, hprocess, hlike⟩ := hvalues
  refine ⟨kernel, hrun, hcurrent, hfirst, ?_⟩
  apply (fork_copies_caller_iff rfl hfree (htaken.trans_ne (by decide)) hmain).mpr
  refine ⟨1, hprocess, ?_⟩
  rw [hfirst]
  exact hlike

/-- The child of a second thread with an FS base of its own has that of the first one. -/
theorem fork_of_second_thread_loses_base :
    ¬ ∀ (answers : Answers) (kernel after : Kernel) (frame : SyscallFrame)
        (child : ProcId) (thread : ThreadId),
      (∃ events, run Kernel.step sampleKernel events = some kernel) →
      (kernel.processFork answers frame).2 = after →
      (kernel.processes child).pid = 0 → (after.processes child).pid ≠ 0 →
      (after.processes child).mainThread = some thread →
      CopiesCaller kernel.running frame thread (after.threads thread) := by
  intro h
  have hfacts : (run Kernel.step sampleKernel (secondThreadRun 0x90f00)).map
      (fun kernel => ((kernel.processes 2).pid, (kernel.forked.processes 2).pid,
        (kernel.forked.processes 2).mainThread, kernel.running.fsBase,
        (kernel.forked.threads 4).fsBase)) =
      some (0, 3, some 4, 0x600000, 0) := by
    decide +kernel
  obtain ⟨kernel, hrun, hvalues⟩ := Option.map_eq_some_iff.1 hfacts
  simp only [Prod.mk.injEq] at hvalues
  obtain ⟨hfree, htaken, hmain, hcaller, hchild⟩ := hvalues
  have hcopies := h (willing []) kernel kernel.forked _ 2 4 ⟨_, hrun⟩ rfl hfree
    (htaken.trans_ne (by decide)) hmain
  have hbase := hcopies.fsBase
  rw [hcaller, hchild] at hbase
  exact absurd hbase (by decide)

end NPKernel
