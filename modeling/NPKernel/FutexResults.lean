import NPKernel.ParkedThreads

/-!
# The result of a futex wait

`futex_complete_thread` records the result of a wait in the thread, but a thread
that has been switched away from does not return through `process_futex_wait`:
it is resumed from the frame of its syscall, where the result was never stored.
-/

namespace NPKernel

open RegisterStack GuardedRuns

/-- The `FUTEX_WAIT` calls in which threads are blocked and from which they
are not back yet. -/
abbrev FutexCalls := ThreadId → Option UserState

/-- A call is noted when it blocks, and forgotten when its thread runs again or
its slot belongs to another thread. -/
def noteFutex (calls : FutexCalls) (kernel : Kernel) (event : Event) (next : Kernel) :
    FutexCalls := fun thread =>
  if (next.threads thread).tid ≠ (kernel.threads thread).tid then none
  else if thread = next.current then
    match event, next.mode with
    | .syscall user _, .yielding .futex => some user
    | _, _ => none
  else calls thread

inductive FutexEnd where
  | wake | deadline | signal
  deriving DecidableEq

def FutexEnd.result : FutexEnd → Word
  | .wake => 0
  | .deadline => -PROCESS_ETIMEDOUT
  | .signal => -PROCESS_EINTR

/-- The slot has the frame of the call, where the end of a child may have been reported
in the place of the call number; the result of the wait is in neither. -/
structure ThreadSlot.LeftBy (slot : ThreadSlot) (nextPid : ℕ) (thread : ThreadId)
    (user : UserState) : Prop where
  ring : slot.privilegeRing = 3
  saved : slot.savedInterruptFrame = some (.stackTop thread)
  kind : slot.savedFrameKind = .syscall
  words : ∀ i, i ≠ 0 → slot.frame i = user.syscallFrame.raw i
  first : slot.frame 0 = 202 ∨ ChildReport nextPid (slot.frame 0)

theorem ThreadSlot.LeftBy.rested {nextPid later : ℕ} {before after : ThreadSlot}
    {thread : ThreadId} {user : UserState} (h : before.LeftBy nextPid thread user)
    (hlater : nextPid ≤ later) (hrested : Rested later before after) :
    after.LeftBy later thread user where
  ring := hrested.ring.trans h.ring
  saved := hrested.saved.trans h.saved
  kind := hrested.kind.trans h.kind
  words i hi := (hrested.frame hi).trans (h.words i hi)
  first := by
    rcases hrested.first with hkept | hreport
    · rw [hkept]
      exact h.first.imp_right (·.mono hlater)
    · exact .inr hreport

theorem SyscallFrame.futex_number {frame : SyscallFrame} {userAddress operation : Word}
    {value : BitVec 32} {userTimeout : Word}
    (h : frame.syscall = .futex userAddress operation value userTimeout) : frame.raw 0 = 202 := by
  unfold SyscallFrame.syscall at h
  split at h <;> try cases h
  next hnumber => exact BitVec.eq_of_toNat_eq hnumber

namespace Kernel

/-- Every noted call has its frame saved; the current thread is in one only
while it blocks. -/
structure FutexParked (calls : FutexCalls) (kernel : Kernel) : Prop where
  current : calls kernel.current ≠ none → kernel.mode = .yielding .futex
  parked : ∀ thread user, calls thread = some user →
    (kernel.threads thread).state.live = true →
      (kernel.threads thread).LeftBy kernel.nextPid thread user

namespace FutexParked

variable {calls : FutexCalls} {kernel next : Kernel} {event : Event}

theorem of_blocked (h : kernel.Positioned) {user : UserState} {answers : Answers}
    (hstep : kernel.step (.syscall user answers) = some next)
    (hmode : next.mode = .yielding .futex) :
    next.running.LeftBy next.nextPid next.current user := by
  simp only [step, Option.ite_none_right_eq_some, Option.some.injEq] at hstep
  obtain ⟨huser, hnext⟩ := hstep
  have hentered := (enterSyscall_fields kernel user.syscallFrame).2.trans huser
  have hdispatched := syscallDispatch_dispatched answers user (congrArg ThreadState.live
    ((enterSyscall_state kernel user.syscallFrame).trans (h.at_mode huser)))
  rw [hnext] at hdispatched
  cases hdispatched with
  | returned hstays =>
    rw [hstays.mode, hentered] at hmode
    cases hmode
  | slept | reading | yielded | waited => cases hmode
  | futexBlocked hcall hring =>
    have hslot := enterSyscall_running kernel user.syscallFrame
    have hcurrent := (enterSyscall_fields kernel user.syscallFrame).1
    rw [running, setThread_current, setThread_threads, if_pos rfl, hslot, hcurrent]
    rw [hslot] at hring
    exact ⟨hring, rfl, rfl, fun _ _ => rfl, .inl (SyscallFrame.futex_number hcall)⟩
  | ended hended =>
    rw [hended.1] at hmode
    cases hmode
  | execed =>
    rw [(processExecCurrent_fields _ _).2.2, hentered] at hmode
    cases hmode

theorem left (h : FutexParked calls kernel) (hpositioned : kernel.Positioned) {user : UserState}
    (hcalls : calls kernel.current = some user) {site : YieldSite} {chosen : ThreadId}
    (hyields : kernel.YieldsTo chosen) :
    ((kernel.switchedTo site chosen).threads kernel.current).LeftBy kernel.nextPid
      kernel.current user := by
  have hmode := h.current (by rw [hcalls]; exact Option.some_ne_none user)
  have hblocked : kernel.running.state = .blocked := hpositioned.at_mode hmode
  have hparked := h.parked kernel.current user hcalls (congrArg ThreadState.live hblocked)
  rw [switchedTo_left site hyields]
  refine ⟨?_, ?_, ?_, ?_, ?_⟩
  · simpa [deactivate, running] using hparked.ring
  · rw [running] at hblocked
    simpa [deactivate, running, hblocked] using hparked.saved
  · simpa [deactivate, running] using hparked.kind
  · simpa [deactivate, running] using hparked.words
  · simpa [deactivate, running] using hparked.first

theorem afterLeft (h : FutexParked calls kernel) (hpositioned : kernel.Positioned)
    (hfiled : kernel.Filed) (hhandover : Handover event kernel next) {user : UserState}
    (hcalls : calls kernel.current = some user) (hcurrent : kernel.current ≠ next.current)
    (hlive : (next.threads kernel.current).state.live = true)
    (htid : (next.threads kernel.current).tid = kernel.running.tid) :
    (next.threads kernel.current).LeftBy next.nextPid kernel.current user := by
  have hblocks := h.current (by rw [hcalls]; exact Option.some_ne_none user)
  cases hhandover with
  | kept hchanges => exact absurd (Changes.current hchanges).symm hcurrent
  | @yielded answers site chosen hevent _ hnext hother hgone =>
    have hyields : kernel.YieldsTo chosen := ⟨hnext, hother⟩
    have htransitions : Transitions event kernel (kernel.switchedTo site chosen) :=
      switchedTo_transitions site hyields
    have hchanges : Changes event _ _ := goOn_changes site hyields answers
      (kernel.yieldContinuation chosen) fun _ => ⟨answers, hevent⟩
    rw [← hgone] at hchanges
    have hswitched := hfiled.afterTransitions htransitions
    have hrests : Rests (kernel.switchedTo site chosen) next kernel.current := by
      refine .of_changes hswitched hchanges ?_
      rw [switchedTo_current site hyields]
      exact Ne.symm hother
    refine (h.left hpositioned hcalls hyields).rested
      (htransitions.counts.2.trans hrests.next.2)
      (hrests.rested hswitched.toFramed hlive (htid.trans ?_))
    rw [switchedTo_left site hyields]
    simp [deactivate, running]
  | preempted _ hmode =>
    rw [hblocks] at hmode
    cases hmode
  | execed _ hmode =>
    rw [hblocks] at hmode
    cases hmode

theorem afterStep (h : FutexParked calls kernel) (hpositioned : kernel.Positioned)
    (hfiled : kernel.Filed) (hstep : kernel.step event = some next) :
    FutexParked (noteFutex calls kernel event next) next := by
  constructor
  · intro hnoted
    by_contra hmode
    refine hnoted ?_
    unfold noteFutex
    split
    · rfl
    · rw [if_pos rfl]
      split
      next hfutex => exact absurd hfutex hmode
      · rfl
  · intro thread user hnoted hlive
    unfold noteFutex at hnoted
    split at hnoted
    · cases hnoted
    next htid =>
    rw [not_not] at htid
    split at hnoted
    next hcurrent =>
      subst hcurrent
      split at hnoted
      next hfutex =>
        cases hnoted
        exact of_blocked hpositioned hstep hfutex
      · cases hnoted
    next hcurrent =>
    have hhandover := step_handover hpositioned hstep
    by_cases hthread : thread = kernel.current
    · subst hthread
      exact h.afterLeft hpositioned hfiled hhandover hnoted hcurrent hlive htid
    · have hrests := hhandover.rests hfiled hthread hcurrent
      have hrested := hrests.rested hfiled.toFramed hlive htid
      exact (h.parked thread user hnoted (hrested.live.symm.trans hlive)).rested hrests.next.2
        hrested

end FutexParked

/-- A thread is resumed from the frame of its syscall as it is: signals are
delivered on interrupt frames only. -/
theorem resumeFrame_leftBy {kernel : Kernel} {nextPid : ℕ} {thread : ThreadId}
    {user : UserState} (h : (kernel.threads thread).LeftBy nextPid thread user)
    (hcurrent : kernel.current = thread) (answers : Answers) :
    resumeFrame answers kernel (.stackTop thread) = { kernel with mode := .user } := by
  have hselector : isUserSelector ((kernel.threads thread).frame 16) = true := by
    rw [h.words 16 (by decide)]
    exact (by decide : isUserSelector USER_CS = true)
  have hkind : kernel.running.savedFrameKind = .syscall := by
    rw [running, hcurrent]
    exact h.kind
  simp only [resumeFrame, frameWords, hselector, hkind]
  rfl

theorem yielded_leftBy {kernel : Kernel} {nextPid : ℕ} {chosen : ThreadId} {user : UserState}
    (h : (kernel.threads chosen).LeftBy nextPid chosen user) (answers : Answers) (site : YieldSite)
    (hyields : kernel.YieldsTo chosen) :
    goOn answers (kernel.switchedTo site chosen) (kernel.yieldContinuation chosen) =
      { kernel.switchedTo site chosen with mode := .user } := by
  have hslot := switchedTo_resumed site hyields h.saved
  have hcontinuation : kernel.yieldContinuation chosen = .frame (.stackTop chosen) := by
    simp only [yieldContinuation, h.ring, h.saved]
    rfl
  rw [hcontinuation, goOn]
  have hleft : ((kernel.switchedTo site chosen).threads chosen).LeftBy nextPid chosen user := by
    rw [hslot]
    exact ⟨h.ring, h.saved, h.kind, h.words, h.first⟩
  exact resumeFrame_leftBy hleft (switchedTo_current site hyields) answers

theorem preempted_leftBy {kernel : Kernel} {nextPid : ℕ} {chosen : ThreadId}
    {user interrupted : UserState}
    (h : ((kernel.preempted interrupted).threads chosen).LeftBy nextPid chosen user)
    (answers : Answers) (hnext : kernel.preemptNext interrupted = some chosen) :
    schedulerPreempt answers kernel interrupted =
      { kernel.preemptedTo interrupted chosen with mode := .user } := by
  obtain ⟨-, hcurrent, hslot⟩ := preemptedTo_running hnext
  have hready : (kernel.preemptedTo interrupted chosen).materializeFrame =
      kernel.preemptedTo interrupted chosen :=
    materializeFrame_of_saved (by rw [hslot]; exact h.saved)
  rw [schedulerPreempt_goesOn hnext, hready, hslot]
  dsimp only
  rw [h.saved]
  dsimp only
  rw [if_neg (by rw [h.ring]; decide)]
  have hleft : ((kernel.preemptedTo interrupted chosen).threads chosen).LeftBy nextPid chosen
      user := by
    rw [running, hcurrent] at hslot
    rw [hslot]
    exact ⟨h.ring, h.saved, h.kind, h.words, h.first⟩
  exact resumeFrame_leftBy hleft hcurrent answers

end Kernel

namespace Kernel

structure FutexSound (calls : FutexCalls) (kernel : Kernel) : Prop where
  positioned : kernel.Positioned
  filed : kernel.Filed
  parked : FutexParked calls kernel

namespace FutexSound

variable {calls : FutexCalls} {kernel next : Kernel}

theorem launched (root entry stack : Word) :
    FutexSound (fun _ => none) (NPKernel.launched root entry stack) where
  positioned := .launched root entry stack
  filed := .launched root entry stack
  parked := ⟨fun hnone => absurd rfl hnone, fun _ _ hcalls => by cases hcalls⟩

theorem afterRun {root entry stack : Word} {events : List Event}
    (hrun : run (track step noteFutex) (NPKernel.launched root entry stack, fun _ => none)
      events = some (kernel, calls)) : FutexSound calls kernel := by
  have hpreserve : ∀ (state : Kernel × FutexCalls) event next, FutexSound state.2 state.1 →
      True → track step noteFutex state event = some next → FutexSound next.2 next.1 := by
    rintro state event next h - htrack
    obtain ⟨hstep, hnote⟩ := track_eq_some htrack
    rw [hnote]
    exact ⟨step_positioned h.positioned hstep, h.filed.afterStep h.positioned hstep,
      h.parked.afterStep h.positioned h.filed hstep⟩
  exact invariant_run hpreserve (FutexSound.launched root entry stack)
    (Guarded.of_forall fun _ _ _ => trivial) hrun

/-- A thread is resumed with the frame of its call; an expired wait of another
thread may have come before. -/
theorem resumed (h : FutexSound calls kernel) {event : Event} {thread : ThreadId}
    {user : UserState} (hstep : kernel.step event = some next) (hcalls : calls thread = some user)
    (hevent : (∃ answers, event = .yield answers) ∨ ∃ user answers, event = .timer user answers)
    (hother : thread ≠ kernel.current) (hresumed : next.current = thread) :
    next.mode = .user ∧ next.running.savedFrameKind = .syscall ∧
      (∀ i, i ≠ 0 → next.running.frame i = user.syscallFrame.raw i) ∧
      ((∃ answers, event = .yield answers) →
        next.running.frame 0 = 202 ∨ ChildReport kernel.nextPid (next.running.frame 0)) := by
  cases step_handover h.positioned hstep with
  | kept hchanges => exact absurd (hresumed.symm.trans (Changes.current hchanges)) hother
  | @yielded answers site chosen _ _ hnext hchosen hgone =>
    have hyields : kernel.YieldsTo chosen := ⟨hnext, hchosen⟩
    have hcurrent : next.current = chosen := by
      rw [hgone, Changes.current (goOn_changes site hyields answers _ fun _ =>
        ⟨answers, rfl⟩)]
      exact switchedTo_current site hyields
    obtain rfl : chosen = thread := hcurrent.symm.trans hresumed
    have hleft := h.parked.parked chosen user hcalls (by rw [(nextRunnable_some hnext).1]; rfl)
    have hslot := switchedTo_resumed site hyields hleft.saved
    rw [yielded_leftBy hleft answers site hyields] at hgone
    have hrunning : next.running = { kernel.threads chosen with state := .running } := by
      rw [running, hresumed, hgone]
      exact hslot
    rw [hrunning]
    exact ⟨by rw [hgone], hleft.kind, hleft.words, fun _ => hleft.first⟩
  | @preempted interrupted answers ticked chosen heq _ hticked _ hnext hgone =>
    have hcurrent : next.current = chosen := by
      have hchanges : Changes event _ _ := schedulerPreempt_changes hnext answers
      rw [hgone, Changes.current hchanges, materializeFrame_current]
      exact (preemptedTo_running hnext).2.1
    obtain rfl : chosen = thread := hcurrent.symm.trans hresumed
    have hrested : ThreadSlot.Rested kernel.nextPid (kernel.threads chosen)
        ((ticked.preempted interrupted).threads chosen) := by
      have hthreads : ticked.threads = kernel.threads := by rw [hticked]
      have hbefore : ticked.current = kernel.current := by rw [hticked]
      rw [← hthreads]
      exact preempted_rested ticked interrupted (by rw [hbefore]; exact hother)
    have hlive : (kernel.threads chosen).state.live = true := by
      rw [← hrested.live, (findNextRunnable_some hnext).1]
      rfl
    have hleft := (h.parked.parked chosen user hcalls hlive).rested le_rfl hrested
    have hslot := (preemptedTo_running hnext).2.2
    rw [preempted_leftBy hleft answers hnext] at hgone
    have hrunning : next.running =
        { (ticked.preempted interrupted).threads chosen with state := .running } := by
      rw [hgone]
      exact hslot
    rw [hrunning]
    refine ⟨by rw [hgone], hleft.kind, hleft.words, ?_⟩
    rintro ⟨answers, hyield⟩
    rw [heq] at hyield
    cases hyield
  | execed heq =>
    rcases hevent with ⟨_, hyield⟩ | ⟨_, _, htimer⟩
    · rw [heq] at hyield
      cases hyield
    · rw [heq] at htimer
      cases htimer

end FutexSound

end Kernel

theorem ChildReport.ne_result {nextPid : ℕ} {word : Word} (h : ChildReport nextPid word)
    (hpids : nextPid ≤ 2 ^ 63) (cause : FutexEnd) : word ≠ cause.result := by
  rcases h with rfl | ⟨pid, hpos, hlt, rfl⟩
  · cases cause <;> decide
  · intro heq
    have hvalue := congrArg BitVec.toNat heq
    rw [BitVec.toNat_ofNat, Nat.mod_eq_of_lt (by omega)] at hvalue
    have hresult : cause.result.toNat = 0 ∨ 2 ^ 63 ≤ cause.result.toNat := by
      cases cause <;> decide
    omega

/-- In every run: a thread that had blocked in a `FUTEX_WAIT` and that the
scheduler resumes finds the result for the way its wait has ended in RAX exactly
when the timer interrupt resumes it and it had that value in R15 at the call.
When `scheduler_yield` resumes it, it finds the number of the call, unless the end
of a child has been reported there. -/
theorem futex_result_iff {root entry stack : Word} {events : List Event} {last next : Kernel}
    {calls : FutexCalls} {event : Event} {thread : ThreadId} {user : UserState}
    (hrun : run (track Kernel.step noteFutex) (launched root entry stack, fun _ => none) events =
      some (last, calls)) (hpids : last.nextPid ≤ 2 ^ 63)
    (hevent : (∃ answers, event = .yield answers) ∨ ∃ user answers, event = .timer user answers)
    (hstep : last.step event = some next) (hcalls : calls thread = some user)
    (hother : thread ≠ last.current) (hresumed : next.current = thread) :
    next.mode = .user ∧ ∀ cpu : Cpu, cpu.stack = next.running.frame →
      let rax := (cpu.run (exitCode event next.running.savedFrameKind)).regs .rax
      ((∃ answers, event = .yield answers) → rax = 202 ∨ ChildReport last.nextPid rax) ∧
        ∀ cause : FutexEnd, rax = cause.result ↔
          (∃ interrupted answers, event = .timer interrupted answers) ∧
            user.regs .r15 = cause.result := by
  obtain ⟨hmode, hkind, hwords, hfirst⟩ := (Kernel.FutexSound.afterRun hrun).resumed hstep hcalls
    hevent hother hresumed
  refine ⟨hmode, ?_⟩
  intro cpu hstack rax
  have hrax : rax = next.running.frame (exitSlot event .syscall .rax) := by
    rw [← hkind, ← hstack]
    exact cpu.run_exitCode_regs event next.running.savedFrameKind .rax
  rw [hrax]
  rcases hevent with ⟨answers, rfl⟩ | ⟨interrupted, answers, rfl⟩
  · have hword : next.running.frame 0 = 202 ∨ ChildReport last.nextPid (next.running.frame 0) :=
      hfirst ⟨answers, rfl⟩
    have hno : ∀ cause : FutexEnd, next.running.frame 0 ≠ cause.result := by
      intro cause
      rcases hword with hnumber | hreport
      · rw [hnumber]
        cases cause <;> decide
      · exact hreport.ne_result hpids cause
    refine ⟨fun _ => hword, ?_⟩
    intro cause
    refine ⟨fun heq => absurd heq (hno cause), ?_⟩
    rintro ⟨⟨interrupted, answers', htimer⟩, -⟩
    cases htimer
  · have hvalue : next.running.frame (exitSlot (.timer interrupted answers) .syscall .rax) =
        user.regs .r15 :=
      hwords 14 (by decide)
    rw [hvalue]
    refine ⟨?_, fun cause => ⟨fun heq => ⟨⟨_, _, rfl⟩, heq⟩, fun h => h.2⟩⟩
    rintro ⟨answers', hyield⟩
    cases hyield

def futexWakeRun : List Event := futexWaitingRun ++ [.call 202 [0x6000, 1, 1, 0]]

theorem futex_result_iff_woken :
    ∃ last calls next, run (track Kernel.step noteFutex)
        (sampleKernel, fun _ => none) futexWakeRun = some (last, calls) ∧
      last.step (.timer (.calling 0 []) (willing [])) = some next ∧ next.current = 2 ∧
      next.mode = .user ∧ ∀ cpu : Cpu, cpu.stack = next.running.frame →
        (cpu.run (exitCode (.timer (.calling 0 []) (willing []))
          next.running.savedFrameKind)).regs .rax = FutexEnd.wake.result := by
  have hfacts : (run (track Kernel.step noteFutex) (sampleKernel, fun _ => none) futexWakeRun).bind
        (fun last => (Kernel.step last.1 (.timer (.calling 0 []) (willing []))).map
          (fun next => (next.current, last.1.current, last.1.nextPid,
            (last.2 2).map fun user => user.regs .r15))) =
      some (2, 3, 3, some 0) := by
    decide +kernel
  obtain ⟨⟨last, calls⟩, hrun, hstep⟩ := Option.bind_eq_some_iff.1 hfacts
  obtain ⟨next, hnext, hvalues⟩ := Option.map_eq_some_iff.1 hstep
  simp only [Prod.mk.injEq] at hvalues
  obtain ⟨hcurrent, hbefore, hpid, hcalls⟩ := hvalues
  obtain ⟨user, huser, hr15⟩ := Option.map_eq_some_iff.1 hcalls
  obtain ⟨hmode, hresult⟩ := futex_result_iff hrun (by rw [hpid]; decide) (.inr ⟨_, _, rfl⟩) hnext
    huser (by rw [hbefore]; decide) hcurrent
  refine ⟨last, calls, next, hrun, hnext, hcurrent, hmode, ?_⟩
  intro cpu hstack
  exact ((hresult cpu hstack).2 .wake).mpr ⟨⟨_, _, rfl⟩, hr15⟩

/-- The second thread exits, and the first one finds the number of its call in RAX. -/
theorem futex_wake_returns_call_number :
    ¬ ∀ (events : List Event) (answers : Answers) (last next : Kernel) (calls : FutexCalls)
        (thread : ThreadId) (user : UserState) (cpu : Cpu),
      run (track Kernel.step noteFutex) (sampleKernel, fun _ => none) events = some (last, calls) →
      last.step (.yield answers) = some next → calls thread = some user →
      thread ≠ last.current → next.current = thread → next.mode = .user →
      (last.threads thread).futexWaiting = false →
      (last.threads thread).futexResult = FutexEnd.wake.result →
      cpu.stack = next.running.frame →
      (cpu.run (exitCode (.yield answers) next.running.savedFrameKind)).regs .rax =
        FutexEnd.wake.result := by
  intro h
  have hfacts : (run (track Kernel.step noteFutex) (sampleKernel, fun _ => none)
      (futexWakeRun ++ [.call 60 [0]])).bind
        (fun last => (Kernel.step last.1 (.yield (willing []))).map
          (fun next => ((last.2 2).isSome, last.1.current, next.current, next.mode,
            next.running.frame 0, next.running.savedFrameKind))) =
      some (true, 3, 2, .user, 202, .syscall) := by
    decide +kernel
  have hended : (run (track Kernel.step noteFutex) (sampleKernel, fun _ => none)
      (futexWakeRun ++ [.call 60 [0]])).map
        (fun last => ((last.1.threads 2).futexWaiting, (last.1.threads 2).futexResult)) =
      some (false, 0) := by
    decide +kernel
  obtain ⟨⟨last, calls⟩, hrun, hstep⟩ := Option.bind_eq_some_iff.1 hfacts
  obtain ⟨next, hnext, hvalues⟩ := Option.map_eq_some_iff.1 hstep
  rw [hrun, Option.map_some, Option.some.injEq] at hended
  simp only [Prod.mk.injEq] at hvalues hended
  obtain ⟨hcalls, hbefore, hcurrent, hmode, hword, hkind⟩ := hvalues
  obtain ⟨user, huser⟩ := Option.isSome_iff_exists.1 hcalls
  have hresult := h _ (willing []) last next calls 2 user
    { regs := fun _ => 0, stack := next.running.frame, gsBase := 0, kernelGsBase := 0 }
    hrun hnext huser (by rw [hbefore]; decide) hcurrent hmode hended.1 hended.2 rfl
  rw [Cpu.run_exitCode_regs, hkind] at hresult
  exact absurd (hword.symm.trans hresult) (by decide)

end NPKernel
