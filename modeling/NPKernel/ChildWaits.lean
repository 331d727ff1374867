import NPKernel.ThreadGroups

/-!
# Children and the threads that wait for them

The record of a `wait4` belongs to the process, and the state of a blocked thread
does not say why it is blocked.  So `wake_parent_waiter` reports a child to the
right thread only as long as a process that waits has no other blocked thread.
Which call a thread is blocked in is kept in a history variable.
-/

namespace NPKernel

open RegisterStack GuardedRuns

variable {process parent child : ProcId} {slot record : ProcessSlot} {thread : ThreadId}
  {event : Event} {answers : Answers} {target : ℤ}

/-- The target and the status pointer of the `wait4` call in which each thread
last blocked; `none` if it last blocked in another call. -/
abbrev Waits := ThreadId → Option (ℤ × Word)

def noteWait (waits : Waits) (_ : Kernel) (event : Event) (next : Kernel) : Waits :=
  match event with
  | .syscall user _ =>
    match user.syscallFrame.syscall with
    | .wait4 target userStatus _ =>
      if next.mode = .yielding .wait4 then
        Function.update waits next.current (some (target, userStatus))
      else waits
    | .futex _ _ _ _ =>
      if next.mode = .yielding .futex then Function.update waits next.current none else waits
    | _ => waits
  | .getchar _ =>
    if next.mode = .yielding .terminal then Function.update waits next.current none else waits
  | _ => waits

def ProcessSlot.waitRecord (slot : ProcessSlot) : Bool × ℤ × Word :=
  (slot.waitActive, slot.waitTarget, slot.waitStatusUser)

theorem ThreadState.woken_ne_blocked (state : ThreadState) : state.woken ≠ .blocked := by
  cases state <;> decide

namespace Kernel

/-! ## Changes that block no thread -/

/-- No thread blocks.  A process keeps its wait record, or it does not wait and
has no blocked thread. -/
structure Calmer (before after : Kernel) : Prop where
  thread : ∀ thread, (after.threads thread).state = .blocked →
    (before.threads thread).state = .blocked ∧
      (after.threads thread).owner = (before.threads thread).owner ∧
      ((before.threads thread).savedInterruptFrame = some (.stackTop thread) →
        (after.threads thread).savedInterruptFrame = some (.stackTop thread))
  process : ∀ process, (after.processes process).waitRecord =
      (before.processes process).waitRecord ∨
    (after.processes process).waitActive = false ∧
      ∀ thread, (after.threads thread).owner = some process →
        (after.threads thread).state ≠ .blocked

/-- A process does not wait, and none of its blocked threads is in a `wait4`; or it
waits, and its only blocked thread is in the `wait4` of the record. -/
inductive WaitsIn (waits : Waits) (kernel : Kernel) (process : ProcId) : Prop
  | idle (hactive : (kernel.processes process).waitActive = false)
      (hthread : ∀ thread, (kernel.threads thread).owner = some process →
        (kernel.threads thread).state = .blocked → waits thread = none)
  | waiting (target : ℤ) (status : Word) (waiter : ThreadId)
      (hrecord : (kernel.processes process).waitRecord = (true, target, status))
      (hthread : ∀ thread, (kernel.threads thread).owner = some process →
        (kernel.threads thread).state = .blocked →
        thread = waiter ∧ waits thread = some (target, status) ∧
          (kernel.threads thread).savedInterruptFrame = some (.stackTop thread))

variable {waits : Waits} {kernel after : Kernel} {waiter : ThreadId} {stored : Bool}

theorem WaitsIn.of_kept {waits' : Waits} (h : WaitsIn waits kernel process)
    (hrecord : (after.processes process).waitRecord = (kernel.processes process).waitRecord)
    (hkept : ∀ thread, (after.threads thread).owner = some process →
      (after.threads thread).state = .blocked →
      (kernel.threads thread).owner = some process ∧ (kernel.threads thread).state = .blocked ∧
        waits' thread = waits thread ∧
        ((kernel.threads thread).savedInterruptFrame = some (.stackTop thread) →
          (after.threads thread).savedInterruptFrame = some (.stackTop thread))) :
    WaitsIn waits' after process := by
  cases h with
  | idle hactive hthread =>
    refine .idle ((congrArg Prod.fst hrecord).trans hactive) ?_
    intro thread howner hblocked
    obtain ⟨howner', hblocked', hwaits, -⟩ := hkept thread howner hblocked
    exact hwaits.trans (hthread thread howner' hblocked')
  | waiting target status waiter hbefore hthread =>
    refine .waiting target status waiter (hrecord.trans hbefore) ?_
    intro thread howner hblocked
    obtain ⟨howner', hblocked', hwaits, hframe⟩ := hkept thread howner hblocked
    obtain ⟨hself, hnoted, hsaved⟩ := hthread thread howner' hblocked'
    exact ⟨hself, hwaits.trans hnoted, hframe hsaved⟩

theorem WaitsIn.afterCalmer (h : WaitsIn waits kernel process) (hcalmer : Calmer kernel after) :
    WaitsIn waits after process := by
  rcases hcalmer.process process with hrecord | ⟨hactive, hnone⟩
  · refine h.of_kept hrecord ?_
    intro thread howner hblocked
    obtain ⟨hbefore, hsame, hframe⟩ := hcalmer.thread thread hblocked
    exact ⟨hsame ▸ howner, hbefore, rfl, hframe⟩
  · exact .idle hactive fun thread howner hblocked => absurd hblocked (hnone thread howner)

theorem waitRecord_update
    (hprocesses : after.processes = Function.update kernel.processes process slot)
    (hslot : slot.waitRecord = (kernel.processes process).waitRecord) (other : ProcId) :
    (after.processes other).waitRecord = (kernel.processes other).waitRecord := by
  rw [hprocesses, Function.update_apply]
  split
  next heq =>
    subst heq
    exact hslot
  · rfl

namespace Calmer

variable {kernel after : Kernel}

theorem refl (kernel : Kernel) : Calmer kernel kernel :=
  ⟨fun _ hblocked => ⟨hblocked, rfl, id⟩, fun _ => .inl rfl⟩

theorem trans {first second third : Kernel} (h : Calmer first second) (h' : Calmer second third) :
    Calmer first third := by
  refine ⟨?_, ?_⟩
  · intro thread hblocked
    obtain ⟨hsecond, howner', hframe'⟩ := h'.thread thread hblocked
    obtain ⟨hfirst, howner, hframe⟩ := h.thread thread hsecond
    exact ⟨hfirst, howner'.trans howner, fun hbefore => hframe' (hframe hbefore)⟩
  · intro process
    rcases h'.process process with hsame' | hnone'
    · rcases h.process process with hsame | ⟨hnot, hnone⟩
      · exact .inl (hsame'.trans hsame)
      · refine .inr ⟨(congrArg Prod.fst hsame').trans hnot, ?_⟩
        intro thread hthread hblocked
        obtain ⟨hsecond, howner', -⟩ := h'.thread thread hblocked
        exact hnone thread (howner'.symm.trans hthread) hsecond
    · exact .inr hnone'

theorem of_kept (hthread : ∀ thread, (after.threads thread).state = .blocked →
      after.threads thread = kernel.threads thread)
    (hprocess : ∀ process, (after.processes process).waitRecord =
        (kernel.processes process).waitRecord ∨
      (after.processes process).waitActive = false ∧
        ∀ thread, (after.threads thread).owner = some process →
          (after.threads thread).state ≠ .blocked) : Calmer kernel after := by
  refine ⟨?_, hprocess⟩
  intro thread hblocked
  have hsame := hthread thread hblocked
  rw [hsame] at hblocked ⊢
  exact ⟨hblocked, rfl, id⟩

theorem waitActive (h : Calmer kernel after)
    (hnot : (kernel.processes process).waitActive = false) :
    (after.processes process).waitActive = false := by
  rcases h.process process with hsame | ⟨hnot', -⟩
  · exact (congrArg Prod.fst hsame).trans hnot
  · exact hnot'

theorem setThread {slot : ThreadSlot}
    (hthreads : after.threads = Function.update kernel.threads thread slot)
    (hprocesses : ∀ process, (after.processes process).waitRecord =
      (kernel.processes process).waitRecord)
    (hslot : slot.state = .blocked → (kernel.threads thread).state = .blocked ∧
      slot.owner = (kernel.threads thread).owner ∧
      ((kernel.threads thread).savedInterruptFrame = some (.stackTop thread) →
        slot.savedInterruptFrame = some (.stackTop thread))) : Calmer kernel after := by
  refine ⟨?_, fun process => .inl (hprocesses process)⟩
  intro other
  rw [hthreads, Function.update_apply]
  split
  next heq =>
    subst heq
    exact hslot
  · exact fun hblocked => ⟨hblocked, rfl, id⟩

theorem setProcess (hthreads : after.threads = kernel.threads)
    (hprocesses : after.processes = Function.update kernel.processes process slot)
    (hslot : slot.waitRecord = (kernel.processes process).waitRecord) : Calmer kernel after :=
  .of_kept (fun _ _ => by rw [hthreads]) fun other =>
    .inl (waitRecord_update hprocesses hslot other)

theorem of_futex (h : FutexStep kernel after) : Calmer kernel after := by
  refine .of_kept ?_ fun process => .inl (by rw [h.processes])
  intro thread hblocked
  refine (h.thread thread).resolve_right ?_
  rintro ⟨result, heq⟩
  rw [heq] at hblocked
  exact absurd hblocked (ThreadState.woken_ne_blocked _)

theorem of_ended {ended : Kernel} {ends : ThreadId → Prop} (h : EndStep ends kernel ended)
    (hrecord : record.waitRecord = (kernel.processes process).waitRecord) :
    Calmer kernel (ended.setProcess process record) := by
  refine .of_kept ?_ fun other =>
    .inl (waitRecord_update (by rw [← h.processes]; rfl) hrecord other)
  intro thread hblocked
  rw [setProcess_threads] at hblocked ⊢
  have hkept : ¬ends thread := by
    intro hends
    rw [h.zombie hends] at hblocked
    cases hblocked
  refine (h.kept thread hkept).resolve_right ?_
  rintro ⟨result, heq⟩
  rw [heq] at hblocked
  exact absurd hblocked (ThreadState.woken_ne_blocked _)

theorem of_free (h : kernel.GroupsCounted)
    (hfree : process ≠ kernelProcess ∧ (kernel.processes process).pid = 0)
    (hthread : ∀ thread, (after.threads thread).state = .blocked →
      after.threads thread = kernel.threads thread)
    (hprocesses : after.processes = Function.update kernel.processes process slot)
    (hslot : slot.waitActive = false) : Calmer kernel after := by
  refine .of_kept hthread ?_
  intro other
  rw [hprocesses, Function.update_apply]
  split
  next heq =>
    subst heq
    refine .inr ⟨hslot, ?_⟩
    intro thread howner hblocked
    have hsame := hthread thread hblocked
    rw [hsame] at howner hblocked
    refine h.used other (h.alive_of_live hfree.1 (mem_liveThreads.mpr ⟨howner, ?_⟩)) hfree.2
    rw [hblocked]
    rfl
  · exact .inl rfl

theorem of_reaped (h : kernel.GroupsCounted) (hprocess : process ≠ kernelProcess) :
    Calmer kernel (kernel.reaped process) := by
  have hkept : ∀ thread, (if thread ≠ 0 ∧ (kernel.threads thread).owner = some process then
      ThreadSlot.zero else kernel.threads thread).state = .blocked →
      ¬(thread ≠ 0 ∧ (kernel.threads thread).owner = some process) := by
    intro thread hblocked hgone
    rw [if_pos hgone] at hblocked
    cases hblocked
  refine .of_kept (fun thread hblocked => if_neg (hkept thread hblocked)) ?_
  intro other
  dsimp only
  rw [setProcess_processes]
  split
  next heq =>
    subst heq
    refine .inr ⟨rfl, ?_⟩
    intro thread howner hblocked
    have hthread := hkept thread hblocked
    rw [if_neg hthread] at howner
    rcases not_and_or.mp hthread with hzero | hother
    · rw [not_not.mp hzero] at howner
      exact h.owner_of_kernelThread howner hprocess (.inl rfl)
    · exact hother howner
  · exact .inl rfl

end Calmer

def reportResult (kernel : Kernel) (child : ProcId) (stored : Bool) : Word :=
  if stored then BitVec.ofNat 64 (kernel.processes child).pid else -PROCESS_EFAULT

theorem reported_threads
    (hframe : (kernel.threads waiter).savedInterruptFrame = some (.stackTop waiter)) :
    (kernel.reported parent waiter child stored).threads =
      Function.update kernel.threads waiter
        { kernel.threads waiter with
          state := .ready
          frame := Function.update (kernel.threads waiter).frame 0
            (kernel.reportResult child stored) } := by
  unfold reported writeFrame
  dsimp only
  rw [hframe]
  simp [setThread, setProcess, reportResult]

theorem writeFrame_processes (kernel : Kernel) (frame : Option FramePtr) (index : ℕ)
    (word : Word) : (kernel.writeFrame frame index word).processes = kernel.processes := by
  unfold writeFrame
  split <;> rfl

theorem reported_waitRecord (kernel : Kernel) (parent child : ProcId) (waiter : ThreadId)
    (stored : Bool) (process : ProcId) :
    ((kernel.reported parent waiter child stored).processes process).waitRecord =
      if process = parent then
        (false, (kernel.processes parent).waitTarget, (kernel.processes parent).waitStatusUser)
      else (kernel.processes process).waitRecord := by
  unfold reported
  dsimp only
  rw [writeFrame_processes, setThread_processes, setProcess_processes]
  split <;> rfl

theorem WaitsIn.reports (h : WaitsIn waits kernel parent)
    (hreports : Reports answers kernel parent waiter child stored) :
    waits waiter = some ((kernel.processes parent).waitTarget,
        (kernel.processes parent).waitStatusUser) ∧
      (kernel.threads waiter).savedInterruptFrame = some (.stackTop waiter) ∧
      ∀ thread, (kernel.threads thread).owner = some parent →
        (kernel.threads thread).state = .blocked → thread = waiter := by
  obtain ⟨howner, hblocked⟩ := firstBlocked_some hreports.blocked
  cases h with
  | idle hactive =>
    rw [hreports.waiting.2.1] at hactive
    cases hactive
  | waiting target status first hrecord hthread =>
    obtain ⟨rfl, hwaits, hframe⟩ := hthread waiter howner hblocked
    simp only [ProcessSlot.waitRecord, Prod.mk.injEq] at hrecord
    rw [hrecord.2.1, hrecord.2.2]
    exact ⟨hwaits, hframe, fun thread howner hblocked => (hthread thread howner hblocked).1⟩

namespace Calmer

variable {kernel after : Kernel}

theorem of_reported {waits : Waits} (h : ∀ process, WaitsIn waits kernel process)
    (answers : Answers) (child : ProcId) :
    Calmer kernel (wakeParentWaiter answers kernel child) := by
  rcases wakeParentWaiter_cases answers kernel child with hsame |
    ⟨parent, waiter, stored, hreports, heq⟩
  · rw [hsame]
    exact .refl kernel
  obtain ⟨-, hframe, honly⟩ := (h parent).reports hreports
  rw [heq]
  have hthread : ∀ thread,
      ((kernel.reported parent waiter child stored).threads thread).state = .blocked →
      thread ≠ waiter ∧
        (kernel.reported parent waiter child stored).threads thread = kernel.threads thread := by
    intro thread
    rw [reported_threads hframe, Function.update_apply]
    split
    · intro hready
      cases hready
    next hne => exact fun _ => ⟨hne, rfl⟩
  refine .of_kept (fun thread hblocked => (hthread thread hblocked).2) ?_
  intro process
  have hrecord := reported_waitRecord kernel parent child waiter stored process
  split at hrecord
  next heq =>
    subst heq
    refine .inr ⟨congrArg Prod.fst hrecord, ?_⟩
    intro thread howner hblocked
    obtain ⟨hne, hsame⟩ := hthread thread hblocked
    rw [hsame] at howner hblocked
    exact hne (honly thread howner hblocked)
  · exact .inl hrecord

end Calmer

/-! ## Events that block no thread -/

/-- No thread blocks in the event, and no blocked thread goes on. -/
def Quiet : Event → Prop
  | .syscall user _ =>
    (∀ target userStatus options, user.syscallFrame.syscall ≠ .wait4 target userStatus options) ∧
      ∀ userAddress operation value userTimeout,
        user.syscallFrame.syscall ≠ .futex userAddress operation value userTimeout
  | .getchar _ | .yield _ => False
  | _ => True

theorem Calmer.of_move
    (h : ∀ process, WaitsIn waits kernel process) (hquiet : Quiet event)
    (hmove : Move event kernel after) :
    Calmer kernel after := by
  have hsame : ∀ process, (kernel.processes process).waitRecord =
    (kernel.processes process).waitRecord := fun _ => rfl
  cases hmove with
  | outside hthreads hprocesses =>
    exact .of_kept (fun _ _ => by rw [hthreads]) fun process => .inl (by rw [hprocesses])
  | futex hstep => exact .of_futex hstep
  | reported answers => exact .of_reported h answers _
  | reapTaken => exact .setProcess rfl rfl rfl
  | entered => exact .setThread rfl hsame fun hblocked => ⟨hblocked, rfl, fun _ => rfl⟩
  | interrupted => exact .setThread rfl hsame (by rintro ⟨⟩)
  | waited hevent hcall =>
    subst hevent
    exact absurd hcall (hquiet.1 _ _ _)
  | waitEnded hevent =>
    obtain ⟨answers, rfl⟩ := hevent
    exact hquiet.elim
  | futexBlocked hevent hcall =>
    subst hevent
    exact absurd hcall (hquiet.2 _ _ _ _)
  | futexEnded | keyed => exact .setThread rfl hsame (by rintro ⟨⟩)
  | terminalBlocked hevent =>
    subst hevent
    exact hquiet.elim
  | terminalResumed | framed => exact .setThread rfl hsame fun hblocked => ⟨hblocked, rfl, id⟩

theorem Calmer.of_personal
    (hpersonal : PersonalChange event kernel after) : Calmer kernel after := by
  have hview := hpersonal.field
    (fun slot => (slot.state, slot.owner, slot.savedInterruptFrame)) fun _ => rfl
  simp only [Prod.mk.injEq] at hview
  obtain ⟨changed, slot, rfl, -⟩ := hpersonal.setThread
  refine ⟨?_, fun _ => .inl rfl⟩
  intro thread hblocked
  obtain ⟨hstate, howner, hframe⟩ := hview thread
  exact ⟨hstate ▸ hblocked, howner, fun hbefore => hframe.trans hbefore⟩

theorem Calmer.of_change
    (hgroups : kernel.GroupsCounted) (h : ∀ process, WaitsIn waits kernel process)
    (hquiet : Quiet event) (hchange : Change event kernel after) : Calmer kernel after := by
  cases hchange with
  | moved hmove => exact .of_move h hquiet hmove
  | personal hpersonal => exact .of_personal hpersonal
  | action => exact .setProcess rfl rfl rfl
  | forked _ _ _ _ _ _ hchild =>
    refine .of_free hgroups hchild ?_ rfl rfl
    intro thread
    dsimp only
    rw [setProcess_threads, setThread_threads]
    split
    · rintro ⟨⟩
    · exact fun _ => rfl
  | cloned =>
    refine .of_kept ?_ fun other => .inl (waitRecord_update rfl (by rfl) other)
    intro thread
    dsimp only
    rw [setProcess_threads, setThread_threads]
    split
    · rintro ⟨⟩
    · exact fun _ => rfl
  | clearedThread => exact .setThread rfl (fun _ => rfl) (by rintro ⟨⟩)
  | clearedProcess hprocess => exact .of_free hgroups hprocess (fun _ _ => rfl) rfl rfl
  | threadEnded _ _ _ hended => exact .of_ended hended rfl
  | processEnded _ _ _ _ hended => exact .of_ended hended rfl
  | reaped hprocess => exact .of_reaped hgroups hprocess

theorem Calmer.of_switch (hswitch : Switch kernel after) : Calmer kernel after := by
  cases hswitch with
  | deactivated =>
    refine .setThread rfl (fun _ => rfl) ?_
    dsimp only
    intro hblocked
    split at hblocked
    · cases hblocked
    · exact ⟨hblocked, rfl, fun hbefore => (if_pos hblocked).trans hbefore⟩
  | readied => exact .setThread rfl (fun _ => rfl) (by rintro ⟨⟩)
  | activated =>
    exact activateThread_cases _ (.refl kernel) (.setThread rfl (fun _ => rfl) (by rintro ⟨⟩))
  | stored =>
    exact .setThread rfl (fun _ => rfl) fun hblocked => ⟨hblocked, rfl, id⟩
  | materialized =>
    refine materializeFrame_cases _ (.refl kernel) fun hnone => ?_
    refine .setThread rfl (fun _ => rfl) fun hblocked => ⟨hblocked, rfl, ?_⟩
    intro hbefore
    cases hnone.symm.trans hbefore

theorem Calmer.of_exec (answers : Answers) (kernel : Kernel) :
    Calmer kernel (kernel.processExecCurrent answers).2 := by
  have hthread := processExecCurrent_field answers kernel
    (fun slot => (slot.owner, slot.savedInterruptFrame)) (fun _ _ => rfl) fun _ _ => rfl
  simp only [Prod.mk.injEq] at hthread
  refine ⟨?_, ?_⟩
  · intro thread hblocked
    obtain ⟨howner, hframe⟩ := hthread thread
    refine ⟨?_, howner, fun hbefore => hframe.trans hbefore⟩
    rcases processExecCurrent_state answers kernel thread with hstate | hstate
    · exact hstate ▸ hblocked
    · rw [hstate] at hblocked
      cases hblocked
  · intro process
    exact .inl (processExecCurrent_processField answers kernel ProcessSlot.waitRecord
      (fun _ _ _ => rfl) process)

structure Watched (waits : Waits) (kernel : Kernel) : Prop where
  groups : kernel.GroupsCounted
  sound : ∀ process, WaitsIn waits kernel process

namespace Watched

variable {waits : Waits} {kernel after : Kernel}

variable (h : Watched waits kernel)

include h

theorem afterCalmer (hgroups : after.GroupsCounted)
    (hcalmer : Calmer kernel after) : Watched waits after :=
  ⟨hgroups, fun process => (h.sound process).afterCalmer hcalmer⟩

theorem afterTransitions (hquiet : Quiet event) (htransitions : Transitions event kernel after) :
    Watched waits after ∧ Calmer kernel after := by
  induction htransitions with
  | refl => exact ⟨h, .refl kernel⟩
  | @tail middle last _ hlast ih =>
    obtain ⟨hmiddle, hcalmer⟩ := ih
    have hstep : Calmer middle last := by
      cases hlast with
      | changed hchange => exact .of_change hmiddle.groups hmiddle.sound hquiet hchange
      | switched hswitch => exact .of_switch hswitch
    exact ⟨hmiddle.afterCalmer (hmiddle.groups.afterTransition hlast) hstep, hcalmer.trans hstep⟩

theorem afterMove (hmove : Move .kernelTick kernel after) : Watched waits after := by
  have hquiet : Quiet .kernelTick := trivial
  exact (h.afterTransitions hquiet (Changes.move hmove).transitions).1

theorem afterReap (process : ProcId) : Watched waits (kernel.reapProcess process) := by
  have hreaps : Reaps (.yield (willing [])) kernel := .inr (.inl ⟨willing [], rfl⟩)
  unfold reapProcess
  split
  · exact h
  next hprocess =>
  simp only [not_or, Bool.not_eq_true] at hprocess
  have hreaped : Change (.yield (willing [])) kernel _ :=
    .reaped hprocess.1 ⟨hprocess.2.1, hprocess.2.2.1⟩ hprocess.2.2.2 hreaps
  exact h.afterCalmer (h.groups.afterChange hreaped) (.of_reaped h.groups hprocess.1)

theorem afterWaitTail (answers : Answers) (hlive : kernel.running.state.live = true)
    (hstale : ∀ process, kernel.processCurrent = some process →
      kernel.running.state = .blocked ∨ (kernel.processes process).waitActive = false) :
    Watched waits (processWait4Tail answers kernel).2 := by
  rcases processWait4Tail_cases answers kernel with ⟨-, heq⟩ | ⟨parent, hparent, hcases⟩
  · rw [heq]
    exact h
  have hawake : Watched waits (kernel.awakened parent) := by
    have hended : Change (.yield answers) kernel (kernel.awakened parent) :=
      .moved (.waitEnded ⟨answers, rfl⟩ hparent hlive)
    refine h.afterCalmer (h.groups.afterChange hended) ?_
    unfold awakened
    refine .of_kept ?_ ?_
    · intro thread
      rw [setThread_threads]
      split
      · rintro ⟨⟩
      · exact fun _ => rfl
    · intro process
      rw [setThread_processes, setProcess_processes]
      split
      next heq =>
        subst heq
        cases h.sound process with
        | idle hactive => exact .inl (by simp [ProcessSlot.waitRecord, hactive])
        | waiting target status waiter hrecord hthread =>
          have hcurrent : kernel.running.state = .blocked := by
            refine (hstale process hparent).resolve_right ?_
            rw [show (kernel.processes process).waitActive = true from congrArg Prod.fst hrecord]
            decide
          refine .inr ⟨rfl, ?_⟩
          intro thread
          rw [setThread_threads]
          split
          · rintro - ⟨⟩
          next hother =>
            intro howner hblocked
            exact hother ((hthread thread howner hblocked).1.trans
              (hthread kernel.current hparent hcurrent).1.symm)
      · exact .inl rfl
  rcases hcases with heq | ⟨child, heq⟩
  · rw [heq]
    exact hawake
  · rw [heq]
    exact hawake.afterReap child

theorem afterBlocked {slot : ThreadSlot} {note : Option (ℤ × Word)}
    (hthreads : after.threads = Function.update kernel.threads kernel.current slot)
    (hslot : slot.owner = kernel.running.owner) (hgroups : after.GroupsCounted)
    (hrecord : ∀ process, kernel.processCurrent ≠ some process →
      (after.processes process).waitRecord = (kernel.processes process).waitRecord)
    (hown : ∀ process, kernel.processCurrent = some process →
      WaitsIn (Function.update waits kernel.current note) after process) :
    Watched (Function.update waits kernel.current note) after := by
  have howner : ∀ thread, (after.threads thread).owner = (kernel.threads thread).owner := by
    intro thread
    rw [hthreads, Function.update_apply]
    split
    next heq =>
      subst heq
      exact hslot
    · rfl
  refine ⟨hgroups, ?_⟩
  intro process
  by_cases hprocess : kernel.processCurrent = some process
  · exact hown process hprocess
  -- no thread of another process changes
  refine (h.sound process).of_kept (hrecord process hprocess) ?_
  intro thread hthread hblocked
  have hne : thread ≠ kernel.current := by
    rintro rfl
    exact hprocess ((howner kernel.current).symm.trans hthread)
  have hsame : after.threads thread = kernel.threads thread := by
    rw [hthreads, Function.update_of_ne hne]
  rw [hsame] at hthread hblocked ⊢
  exact ⟨hthread, hblocked, Function.update_of_ne hne _ _, id⟩

theorem afterUnwaited {slot : ThreadSlot}
    (hthreads : after.threads = Function.update kernel.threads kernel.current slot)
    (hprocesses : after.processes = kernel.processes) (hgroups : after.GroupsCounted)
    (hslot : slot.owner = kernel.running.owner)
    (hidle : ∀ process, kernel.processCurrent = some process →
      (kernel.processes process).waitActive = false) :
    Watched (Function.update waits kernel.current none) after := by
  refine h.afterBlocked hthreads hslot hgroups (fun _ _ => by rw [hprocesses]) ?_
  intro process hprocess
  refine .idle (by rw [hprocesses, hidle process hprocess]) ?_
  intro thread howner hblocked
  by_cases heq : thread = kernel.current
  · rw [heq, Function.update_self]
  rw [hthreads, Function.update_of_ne heq] at howner hblocked
  rw [Function.update_of_ne heq]
  cases h.sound process with
  | idle _ hthread => exact hthread thread howner hblocked
  | waiting target status waiter hrecord =>
    cases (hidle process hprocess).symm.trans (congrArg Prod.fst hrecord)

theorem afterWaited {status : Word}
    (hthreads : after.threads = Function.update kernel.threads kernel.current
      { kernel.running with state := .blocked })
    (hrecord : ∀ process, (after.processes process).waitRecord =
      if process = parent then (true, target, status) else (kernel.processes process).waitRecord)
    (hgroups : after.GroupsCounted) (hparent : kernel.processCurrent = some parent)
    (hframe : kernel.running.savedInterruptFrame = some (.stackTop kernel.current))
    (halone : ∀ thread, (kernel.threads thread).owner = some parent →
      (kernel.threads thread).state = .blocked → thread = kernel.current) :
    Watched (Function.update waits kernel.current (some (target, status))) after := by
  refine h.afterBlocked hthreads rfl hgroups ?_ ?_
  · intro process hprocess
    rw [hrecord, if_neg]
    rintro rfl
    exact hprocess hparent
  · intro process hprocess
    obtain rfl : parent = process := Option.some.inj (hparent.symm.trans hprocess)
    refine .waiting target status kernel.current (by rw [hrecord, if_pos rfl]) ?_
    intro thread howner hblocked
    have hself : thread = kernel.current := by
      by_contra hne
      rw [hthreads, Function.update_of_ne hne] at howner hblocked
      exact hne (halone thread howner hblocked)
    rw [hself, hthreads, Function.update_self, Function.update_self]
    exact ⟨rfl, rfl, hframe⟩

end Watched

/-! ## Events -/

/-- The event blocks the running thread in a call of `scheduler_yield`. -/
def BlocksIn (kernel : Kernel) (event : Event) (site : YieldSite) : Prop :=
  (kernel.step event).map (fun next => next.mode) = some (.yielding site)

/-- The process of a thread that `scheduler_yield` resumes with the stored context
of a `wait4`. -/
def resumedWait (kernel : Kernel) : Option ProcId :=
  match kernel.nextRunnable kernel.current with
  | none => none
  | some next =>
    if next ≠ kernel.current ∧ (kernel.threads next).privilegeRing = 0 ∧
        (kernel.threads next).savedContext = some .wait4 then (kernel.threads next).owner
    else none

/-- A thread blocks in `wait4` only when no other thread of its process is
blocked, and in another call only when its process does not wait.  The stored
context of a `wait4` is resumed only in a process that does not wait. -/
structure WaitsApart (kernel : Kernel) (event : Event) : Prop where
  wait4 : kernel.BlocksIn event .wait4 → ∀ process ∈ kernel.processCurrent,
    ∀ thread, (kernel.threads thread).owner = some process →
      (kernel.threads thread).state = .blocked → thread = kernel.current
  others : kernel.BlocksIn event .futex ∨ kernel.BlocksIn event .terminal →
    ∀ process ∈ kernel.processCurrent, (kernel.processes process).waitActive = false
  resumed : (∃ answers, event = .yield answers) →
    ∀ process ∈ kernel.resumedWait, (kernel.processes process).waitActive = false

namespace Watched

variable {waits : Waits} {kernel next : Kernel}

variable (h : Watched waits kernel)

include h

theorem afterEntered (frame : SyscallFrame) :
    Watched waits (kernel.enterSyscall frame) ∧ Calmer kernel (kernel.enterSyscall frame) := by
  have hchanges : Changes .kernelTick kernel (kernel.enterSyscall frame) :=
    enterSyscall_changes kernel frame
  have hquiet : Quiet .kernelTick := trivial
  exact h.afterTransitions hquiet hchanges.transitions

section calls

variable {user : UserState} (hmode : kernel.mode = .user)
  (hapart : kernel.WaitsApart (.syscall user answers)) (hgroups : next.GroupsCounted)
  (hstep : kernel.step (.syscall user answers) = some next)

include hmode hapart hgroups hstep

theorem afterWait4 {userStatus options : Word}
    (hcall : user.syscallFrame.syscall = .wait4 target userStatus options) :
    Watched (noteWait waits kernel (.syscall user answers) next) next := by
  obtain ⟨hentered, hcalmer⟩ := h.afterEntered user.syscallFrame
  have hsame := hstep
  simp only [step, hmode, if_true, syscallDispatch, hcall, Option.some.injEq] at hsame
  have hcurrent := (enterSyscall_fields kernel user.syscallFrame).1
  have hnoted : ∀ after : Kernel, after.mode = kernel.mode →
      noteWait waits kernel (.syscall user answers) after = waits := by
    intro after hafter
    simp only [noteWait, hcall]
    rw [hafter, hmode]
    rfl
  rcases processWait4_cases answers (kernel.enterSyscall user.syscallFrame) target userStatus
    options with ⟨parent, ⟨hparent, -⟩, heq⟩ | heq | ⟨child, heq⟩
  · rw [heq] at hsame
    have hblocks : kernel.BlocksIn (.syscall user answers) .wait4 := by
      rw [BlocksIn, hstep, ← hsame]
      rfl
    have howner : kernel.processCurrent = some parent := by
      rw [processCurrent, enterSyscall_running] at hparent
      exact hparent
    have hnote : noteWait waits kernel (.syscall user answers) next =
        Function.update waits (kernel.enterSyscall user.syscallFrame).current
          (some (target, userStatus)) := by
      simp only [noteWait, hcall]
      rw [← hsame]
      rfl
    rw [hnote]
    rw [← hsame] at hgroups ⊢
    refine hentered.afterWaited rfl ?_ hgroups hparent ?_ ?_
    · intro process
      rw [setThread_processes, setProcess_processes]
      split <;> rfl
    · rw [enterSyscall_running, hcurrent]
    · intro thread hthread hblocked
      obtain ⟨hbefore, hsameOwner, -⟩ := hcalmer.thread thread hblocked
      rw [hcurrent]
      exact hapart.wait4 hblocks parent howner thread (hsameOwner ▸ hthread) hbefore
  · rw [heq] at hsame
    rw [← hsame, hnoted _ (enterSyscall_fields kernel user.syscallFrame).2]
    exact hentered
  · rw [heq] at hsame
    rw [← hsame, hnoted _ ((reapProcess_stays answers _ child).mode.trans
      (enterSyscall_fields kernel user.syscallFrame).2)]
    exact hentered.afterReap child

theorem afterFutex {userAddress operation : Word} {value : BitVec 32} {userTimeout : Word}
    (hcall : user.syscallFrame.syscall = .futex userAddress operation value userTimeout) :
    Watched (noteWait waits kernel (.syscall user answers) next) next := by
  obtain ⟨hentered, hcalmer⟩ := h.afterEntered user.syscallFrame
  have hsame := hstep
  simp only [step, hmode, if_true, syscallDispatch, hcall, Option.some.injEq] at hsame
  rcases sysFutex_cases answers (kernel.enterSyscall user.syscallFrame) userAddress operation
    value userTimeout with ⟨waiters, -, heq⟩ | hfutex
  · rw [heq] at hsame
    have hblocks : kernel.BlocksIn (.syscall user answers) .futex := by
      rw [BlocksIn, hstep, ← hsame]
      rfl
    have hnote : noteWait waits kernel (.syscall user answers) next =
        Function.update waits (kernel.enterSyscall user.syscallFrame).current none := by
      simp only [noteWait, hcall]
      rw [← hsame]
      rfl
    rw [hnote]
    rw [← hsame] at hgroups ⊢
    refine hentered.afterUnwaited rfl rfl hgroups rfl ?_
    intro process hprocess
    rw [processCurrent, enterSyscall_running] at hprocess
    exact hcalmer.waitActive (hapart.others (.inl hblocks) process hprocess)
  · rw [hsame] at hfutex
    have hnote : noteWait waits kernel (.syscall user answers) next = waits := by
      simp only [noteWait, hcall]
      rw [hfutex.mode, (enterSyscall_fields kernel user.syscallFrame).2, hmode]
      rfl
    rw [hnote]
    exact hentered.afterMove (.futex hfutex)

end calls

theorem afterGetchar {more : Bool}
    (hapart : kernel.WaitsApart (.getchar more)) (hgroups : next.GroupsCounted)
    (hstep : kernel.step (.getchar more) = some next) :
    Watched (noteWait waits kernel (.getchar more) next) next := by
  have hsame := hstep
  simp only [step, Option.ite_none_right_eq_some, Option.some.injEq] at hsame
  obtain ⟨-, hsame⟩ := hsame
  unfold keyboardGetchar at hsame
  split at hsame
  · have hnote : noteWait waits kernel (.getchar more) next = waits := by
      rw [noteWait, ← hsame]
      cases more <;> rfl
    rw [hnote, ← hsame]
    exact h.afterMove (.outside rfl rfl rfl rfl rfl rfl (.inl rfl))
  · have hblocks : kernel.BlocksIn (.getchar more) .terminal := by
      rw [BlocksIn, hstep, ← hsame]
      rfl
    have hnote : noteWait waits kernel (.getchar more) next =
        Function.update waits kernel.current none := by
      rw [noteWait, ← hsame]
      rfl
    rw [hnote]
    rw [← hsame] at hgroups ⊢
    exact h.afterUnwaited rfl rfl hgroups rfl (hapart.others (.inr hblocks))

theorem afterYield (hpositioned : kernel.Positioned)
    (hapart : kernel.WaitsApart (.yield answers)) {site : YieldSite}
    (hmode : kernel.mode = .yielding site) :
    Watched waits (schedulerYield answers kernel site) := by
  have hquiet : Quiet .kernelTick := trivial
  by_cases hresumes : kernel.ResumesWait site
  · rcases hresumes.cases with ⟨rfl, hreturns⟩ | ⟨next, hyields, hring, hcontext⟩
    · have hpending : Watched waits { kernel with reschedulePending := false } :=
        h.afterMove (.outside rfl rfl rfl rfl rfl rfl (.inl rfl))
      have hblocked := (hpositioned.at_mode hmode).1
      rw [schedulerYield_returns answers _ hreturns]
      exact (hpending.afterWaitTail answers (congrArg ThreadState.live hblocked)
        fun _ _ => .inl hblocked).afterMove (.mode _ _)
    · have hswitched := (h.afterTransitions hquiet (switchedTo_transitions site hyields)).1
      obtain ⟨saved, kind, hrunning⟩ := switchedTo_running site hyields
      rw [schedulerYield_resumes hyields hring hcontext]
      refine (hswitched.afterWaitTail answers (by rw [hrunning]; rfl) ?_).afterMove (.mode _ _)
      intro process hprocess
      right
      rw [processCurrent, hrunning] at hprocess
      rw [switchedTo_processes]
      refine hapart.resumed ⟨answers, rfl⟩ process ?_
      rw [Option.mem_def, resumedWait, hyields.1, ← hprocess]
      exact if_pos ⟨hyields.2, hring, hcontext⟩
  · have htransitions : Transitions .kernelTick kernel (schedulerYield answers kernel site) :=
      schedulerYield_transitions answers kernel site (fun h => absurd h hresumes)
        (hpositioned.runningLive.yielding hmode)
    exact (h.afterTransitions hquiet htransitions).1

theorem afterStep (hpositioned : kernel.Positioned) {event : Event}
    (hapart : kernel.WaitsApart event) (hstep : kernel.step event = some next) :
    Watched (noteWait waits kernel event next) next := by
  have hgroups : next.GroupsCounted := step_invariant (fun _ _ h => h.afterTransition)
    (fun _ answers _ _ hlive h => h.afterExec answers hlive) hpositioned h.groups hstep
  have hquiet : Quiet event → noteWait waits kernel event next = waits →
      Watched (noteWait waits kernel event next) next := by
    intro hquiet hnote
    rw [hnote]
    rcases step_transitions hpositioned hstep with htransitions |
      ⟨user, answers, rfl, -, -, rfl⟩
    · exact (h.afterTransitions hquiet htransitions).1
    · exact (h.afterEntered user.syscallFrame).1.afterCalmer hgroups (.of_exec answers _)
  cases event with
  | syscall user answers =>
    have hmode : kernel.mode = .user := by
      obtain ⟨hmode⟩ := step_stepped hstep
      exact hmode
    cases hcall : user.syscallFrame.syscall with
    | wait4 => exact h.afterWait4 hmode hapart hgroups hstep hcall
    | futex => exact h.afterFutex hmode hapart hgroups hstep hcall
    | _ =>
      refine hquiet ⟨?_, ?_⟩ ?_
      · simp [hcall]
      · simp [hcall]
      · simp only [noteWait, hcall]
  | getchar more => exact h.afterGetchar hapart hgroups hstep
  | yield answers =>
    cases step_stepped hstep with
    | yield hmode => exact h.afterYield hpositioned hapart hmode
  | exception | timer | kernelTick | key | wake => exact hquiet trivial rfl

omit h in
theorem launched (root entry stack : Word) :
    Watched (fun _ => none) (NPKernel.launched root entry stack) := by
  refine ⟨.launched root entry stack, fun process => .idle ?_ fun _ _ _ => rfl⟩
  simp only [NPKernel.launched]
  split_ifs <;> rfl

end Watched

/-! ## Events in which a process ends -/

instance (kernel : Kernel) (event : Event) (site : YieldSite) :
    Decidable (kernel.BlocksIn event site) := by
  unfold BlocksIn
  infer_instance

instance (event : Event) : Decidable (∃ answers, event = .yield answers) :=
  match event with
  | .yield answers => .isTrue ⟨answers, rfl⟩
  | .syscall _ _ | .exception _ _ _ | .timer _ _ | .kernelTick | .key | .getchar _ | .wake =>
    .isFalse (by rintro ⟨answers, ⟨⟩⟩)

instance (kernel : Kernel) (event : Event) : Decidable (kernel.WaitsApart event) :=
  decidable_of_iff
    ((kernel.BlocksIn event .wait4 → ∀ process ∈ kernel.processCurrent,
        ∀ thread, (kernel.threads thread).owner = some process →
          (kernel.threads thread).state = .blocked → thread = kernel.current) ∧
      (kernel.BlocksIn event .futex ∨ kernel.BlocksIn event .terminal →
        ∀ process ∈ kernel.processCurrent, (kernel.processes process).waitActive = false) ∧
      ((∃ answers, event = .yield answers) →
        ∀ process ∈ kernel.resumedWait, (kernel.processes process).waitActive = false))
    ⟨fun h => ⟨h.1, h.2.1, h.2.2⟩, fun h => ⟨h.wait4, h.others, h.resumed⟩⟩

end Kernel

end NPKernel
