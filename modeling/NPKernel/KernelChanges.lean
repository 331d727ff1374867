import NPKernel.KernelMoves

/-!
# What an event can change

Every event is a sequence of elementary changes of the tables: the moves of the
scheduler, and changes that create, end or alter one thread or process.  The
invariants of later files are proved for the elementary changes.
-/

namespace NPKernel

open RegisterStack GuardedRuns

variable {thread next : ThreadId} {kernel : Kernel} {process : ProcId} {info : Option SignalInfo}
  {answers : Answers} {user : UserState} {signal : Word}

/-! ## Ending threads -/

def ThreadSlot.ended (slot : ThreadSlot) : ThreadSlot :=
  { slot with clearChildTid := 0, state := .zombie }

theorem ThreadSlot.ended_futexCompleted (slot : ThreadSlot) (result : Word) :
    slot.ended.futexCompleted result = (slot.futexCompleted result).ended :=
  rfl

def ThreadSlot.scheduling (slot : ThreadSlot) :
    ThreadState × ℕ × Option FramePtr × FrameKind × ℕ × Stack Word × Option YieldSite ×
      Option ProcId :=
  (slot.state, slot.privilegeRing, slot.savedInterruptFrame, slot.savedFrameKind, slot.userRing,
    slot.frame, slot.savedContext, slot.owner)

namespace Kernel

/-- The threads in `ends` end, and no slot names them any more; the waits of
others may be completed. -/
structure EndStep (ends : ThreadId → Prop) (before after : Kernel) : Prop where
  rest : after = { before with threads := after.threads, futexWaiters := after.futexWaiters }
  endedSettled : ∀ thread, ends thread → ∃ slot, Settled before after thread slot ∧
    after.threads thread = slot.ended ∧
    ∀ i, (before.futexWaiters i).thread = thread → (after.futexWaiters i).active = false
  keptSettled : ∀ thread, ¬ends thread → Settled before after thread (after.threads thread)

namespace EndStep

theorem refl (kernel : Kernel) : EndStep (fun _ => False) kernel kernel :=
  ⟨rfl, fun _ h => h.elim, fun _ _ => .inl ⟨rfl, fun _ _ => rfl⟩⟩

variable {ends' : ThreadId → Prop}

theorem congr {ends : ThreadId → Prop} {before after : Kernel}
    (h : EndStep ends before after) (hiff : ∀ thread, ends' thread ↔ ends thread) :
    EndStep ends' before after :=
  ⟨h.rest, fun thread ht => h.endedSettled thread ((hiff thread).mp ht),
    fun thread ht => h.keptSettled thread (fun hends => ht ((hiff thread).mpr hends))⟩

theorem name {ends : ThreadId → Prop} {before after : Kernel} (h : EndStep ends before after)
    (i : Fin 256) : (after.futexWaiters i).thread = (before.futexWaiters i).thread := by
  by_cases hends : ends (before.futexWaiters i).thread
  · obtain ⟨slot, hslot, -⟩ := h.endedSettled _ hends
    exact (hslot.name rfl).1
  · exact ((h.keptSettled _ hends).name rfl).1

theorem trans {ends : ThreadId → Prop} {first second third : Kernel}
    (h : EndStep ends first second) (h' : EndStep ends' second third) :
    EndStep (fun thread => ends thread ∨ ends' thread) first third := by
  refine ⟨?_, ?_, ?_⟩
  · have hrest := h'.rest
    rw [h.rest] at hrest
    exact hrest
  · intro thread hends
    by_cases hearlier : ends thread
    · obtain ⟨slot, hslot, hsecond, hfree⟩ := h.endedSettled thread hearlier
      by_cases hlater : ends' thread
      · obtain ⟨slot', hslot', hthird, hfree'⟩ := h'.endedSettled thread hlater
        obtain ⟨last, hlast, heq⟩ :=
          hslot.then_view hsecond ThreadSlot.ended_futexCompleted h.name hslot'
        refine ⟨last, hlast, by rw [hthird, heq]; rfl, ?_⟩
        exact fun i hi => hfree' i (hslot.name hi).1
      · have hkept := h'.keptSettled thread hlater
        obtain ⟨last, hlast, heq⟩ :=
          hslot.then_view hsecond ThreadSlot.ended_futexCompleted h.name hkept
        exact ⟨last, hlast, heq, fun i hi => (hkept.name (hslot.name hi).1).2 (hfree i hi)⟩
    · have hkept := h.keptSettled thread hearlier
      obtain ⟨slot', hslot', hthird, hfree'⟩ :=
        h'.endedSettled thread (hends.resolve_left hearlier)
      exact ⟨slot', hkept.trans h.name hslot', hthird, fun i hi => hfree' i (hkept.name hi).1⟩
  · intro thread hends
    rw [not_or] at hends
    exact (h.keptSettled thread hends.1).trans h.name (h'.keptSettled thread hends.2)

variable {ends : ThreadId → Prop} {before after : Kernel} (h : EndStep ends before after)
include h

theorem ended (thread : ThreadId) (hends : ends thread) :
    ∃ slot, (before.threads thread).Completed slot ∧ after.threads thread = slot.ended := by
  obtain ⟨slot, hslot, hafter, -⟩ := h.endedSettled thread hends
  exact ⟨slot, hslot.completed, hafter⟩

theorem kept (thread : ThreadId) (hends : ¬ends thread) :
    (before.threads thread).Completed (after.threads thread) :=
  (h.keptSettled thread hends).completed

theorem processes : after.processes = before.processes := by
  rw [h.rest]

theorem current : after.current = before.current := by
  rw [h.rest]

theorem zombie (hends : ends thread) : (after.threads thread).state = .zombie := by
  obtain ⟨slot, -, hslot⟩ := h.ended thread hends
  rw [hslot]
  rfl

theorem field {α : Type*} (view : ThreadSlot → α)
    (hview : ∀ slot result, view (slot.futexCompleted result) = view slot)
    (hended : ∀ slot, view (ThreadSlot.ended slot) = view slot) (thread : ThreadId) :
    view (after.threads thread) = view (before.threads thread) := by
  by_cases hends : ends thread
  · obtain ⟨slot, hslot, hafter⟩ := h.ended thread hends
    rw [hafter, hended, hslot.field view hview]
  · exact (h.kept thread hends).field view hview

theorem owner (thread : ThreadId) : (after.threads thread).owner = (before.threads thread).owner :=
  h.field (fun slot => slot.owner) (fun _ _ => rfl) (fun _ => rfl) thread

theorem unused (hused : ∀ thread, ends thread → (before.threads thread).state ≠ .unused)
    (thread : ThreadId) :
    (after.threads thread).state = .unused ↔ (before.threads thread).state = .unused := by
  by_cases hends : ends thread
  · simp [h.zombie hends, hused thread hends]
  · exact (h.kept thread hends).unused

end EndStep

theorem clearChildTid_stored (answers : Answers)
    (howner : (kernel.threads thread).owner = some process) :
    ∃ stored, FutexStep kernel stored ∧ clearChildTid answers kernel thread =
      stored.setThread thread { stored.threads thread with clearChildTid := 0 } := by
  rcases clearChildTid_step answers kernel thread with ⟨hsame, hnone⟩ | ⟨stored, hstored, heq⟩
  · have hzero : (kernel.threads thread).clearChildTid = 0 := by
      rcases hnone with hnone | hzero
      · rw [howner] at hnone
        cases hnone
      · exact hzero
    refine ⟨kernel, .refl kernel, ?_⟩
    rw [hsame, ← hzero]
    simp [setThread]
  · exact ⟨stored, hstored, heq⟩

theorem endThread_eq (answers : Answers) (howner : (kernel.threads thread).owner = some process) :
    ∃ stored, FutexStep kernel stored ∧ endThread answers kernel thread =
      (stored.futexCancelThread thread).setThread thread
        ((stored.futexCancelThread thread).threads thread).ended := by
  obtain ⟨stored, hstored, hclear⟩ := clearChildTid_stored answers howner
  refine ⟨stored, hstored, ?_⟩
  unfold endThread
  dsimp only
  rw [hclear]
  unfold futexCancelThread futexCompleteThread
  have hwaits : (stored.setThread thread
      { stored.threads thread with clearChildTid := 0 }).futexWaits thread =
      stored.futexWaits thread := rfl
  rw [hwaits]
  split
  · simp [setThread, ThreadSlot.ended, ThreadSlot.futexCompleted]
    rfl
  · simp [setThread, ThreadSlot.ended]

theorem endThread_step (answers : Answers) (howner : (kernel.threads thread).owner = some process) :
    EndStep (fun other => other = thread) kernel (endThread answers kernel thread) := by
  obtain ⟨stored, hstored, heq⟩ := endThread_eq answers howner
  have hcancelled : FutexStep kernel (stored.futexCancelThread thread) :=
    hstored.trans (futexCompleteThread_step stored thread _)
  rw [heq]
  refine ⟨?_, ?_, ?_⟩
  · simp only [setThread]
    rw [hcancelled.rest]
  · rintro other rfl
    refine ⟨_, hcancelled.settled other, by simp, ?_⟩
    intro i hi
    exact futexCompleteThread_free stored other _ ((hstored.settled other).name hi).1
  · intro other hother
    simp only [setThread_threads, if_neg hother]
    exact hcancelled.settled other

def EndsWith (process : ProcId) (kernel : Kernel) (thread : ThreadId) : Prop :=
  thread ≠ 0 ∧ (kernel.threads thread).owner = some process ∧
    (kernel.threads thread).state ≠ .unused

theorem exitThreads_step (answers : Answers) (process : ProcId) (threads : List ThreadId)
    (kernel : Kernel) :
    EndStep (fun thread => thread ∈ threads ∧ EndsWith process kernel thread) kernel
      (exitThreads answers process threads kernel) := by
  induction threads generalizing kernel with
  | nil =>
    refine (EndStep.refl kernel).congr ?_
    intro thread
    simp
  | cons first rest ih =>
    unfold exitThreads
    split
    next hskip =>
      refine (ih kernel).congr ?_
      intro thread
      have hfirst : ¬EndsWith process kernel first := by
        rintro ⟨hzero, howner, hused⟩
        rcases hskip with h | h | h
        · exact hzero h
        · exact h howner
        · exact hused h
      constructor
      · rintro ⟨hmem, hends⟩
        rcases List.mem_cons.mp hmem with rfl | hmem
        · exact absurd hends hfirst
        · exact ⟨hmem, hends⟩
      · rintro ⟨hmem, hends⟩
        exact ⟨List.mem_cons_of_mem _ hmem, hends⟩
    next hends =>
    simp only [not_or, not_not] at hends
    have hfirst := endThread_step answers hends.2.1
    refine (hfirst.trans (ih (endThread answers kernel first))).congr ?_
    have hused : ∀ thread, thread = first → (kernel.threads thread).state ≠ .unused := by
      rintro thread rfl
      exact hends.2.2
    intro thread
    have hsame : EndsWith process (endThread answers kernel first) thread ↔
        EndsWith process kernel thread := by
      unfold EndsWith
      rw [hfirst.owner, ne_eq, ne_eq, hfirst.unused hused]
    rw [hsame]
    constructor
    · rintro ⟨hmem, hthread⟩
      rcases List.mem_cons.mp hmem with rfl | hmem
      · exact .inl rfl
      · exact .inr ⟨hmem, hthread⟩
    · rintro (rfl | ⟨hmem, hthread⟩)
      · exact ⟨List.mem_cons_self, hends⟩
      · exact ⟨List.mem_cons_of_mem _ hmem, hthread⟩

/-! ## Elementary changes -/

inductive SignalChange (process : Process) : Thread → Thread → Prop
  | took (thread : Thread) (signal : Word) :
      SignalChange process thread (takePendingSignal thread signal).1
  | entered (thread : Thread) (frame : Stack Word) (frameUser signal : Word)
      (hcatchable : signalUncatchable signal = false) :
      SignalChange process thread
        (enterHandlerThread thread frame (process.signalActions signal.toNat) frameUser signal)
  | left (thread : Thread) : SignalChange process thread (leaveHandlerThread thread)

/-- The event queues a signal with this record. -/
def Queues (event : Event) (info : SignalInfo) : Prop :=
  ∃ user answers kernel signal userInfo, event = .syscall user answers ∧
    queuedSignalInfo answers kernel signal userInfo = .ok info ∧
    ((∃ pid, user.syscallFrame.syscall = .rtSigqueueinfo pid signal userInfo) ∨
      ∃ tgid tid, user.syscallFrame.syscall = .rtTgsigqueueinfo tgid tid signal userInfo)

def Registers (event : Event) (address : Word) : Prop :=
  ∃ user answers, event = .syscall user answers ∧
    (user.syscallFrame.syscall = .setTidAddress address ∨
      ∃ flags childStack parentTid tls,
        user.syscallFrame.syscall = .clone flags childStack parentTid tls address)

/-- A change of the signal state, the bases or the address to clear of one
thread. -/
inductive PersonalChange (event : Event) : Kernel → Kernel → Prop
  | signal {kernel : Kernel} {process : ProcId} {thread : Thread}
      (hprocess : kernel.processCurrent = some process)
      (hthread : SignalChange (kernel.processes process).toProcess kernel.running.toThread thread) :
      PersonalChange event kernel (kernel.putThread thread)
  | masked (kernel : Kernel) (mask : Word) : PersonalChange event kernel (kernel.setSignalMask mask)
  | queued {kernel : Kernel} {target : ThreadId} {info : Option SignalInfo} {pushed : Thread}
      (signal : Word) (hinfo : ∀ record ∈ info, Queues event record)
      (hpushed : info.elim (some (kernel.threads target).toThread)
        (signalQueuePush (kernel.threads target).toThread) = some pushed) :
      PersonalChange event kernel (kernel.setThread target
        { kernel.threads target with
          toThread := { pushed with
            signalPending := pushed.signalPending ||| signalBit signal } })
  | bases (kernel : Kernel) (fsBase gsBase : Word) :
      PersonalChange event kernel (kernel.setThread kernel.current
        { kernel.running with fsBase := fsBase, gsBase := gsBase })
  | tidAddress {kernel : Kernel} {user : UserState} {answers : Answers} {address : Word}
      (hevent : event = .syscall user answers)
      (hcall : user.syscallFrame.syscall = .setTidAddress address) :
      PersonalChange event kernel (kernel.setThread kernel.current
        { kernel.running with clearChildTid := address })

/-- A thread with the fields cleared that a personal change may touch. -/
def withoutPersonal (slot : ThreadSlot) : ThreadSlot :=
  { slot with
    toThread := { slot.toThread.withoutSignals with fsBase := 0, gsBase := 0 }
    clearChildTid := 0 }

theorem SignalChange.withoutSignals {process : Process} {thread next : Thread}
    (h : SignalChange process thread next) : next.withoutSignals = thread.withoutSignals := by
  cases h with
  | took signal => exact takePendingSignal_withoutSignals thread signal
  | entered | left => rfl

theorem signalQueuePush_withoutSignals {thread pushed : Thread}
    (h : info.elim (some thread) (signalQueuePush thread) = some pushed) :
    pushed.withoutSignals = thread.withoutSignals := by
  cases info with
  | none =>
    cases h
    rfl
  | some info =>
    simp only [Option.elim_some, signalQueuePush] at h
    split at h
    · cases h
    · cases h
      rfl

variable {event : Event} {before after : Kernel} {slot : ThreadSlot}

theorem PersonalChange.setThread (h : PersonalChange event before after) :
    ∃ thread slot, after = before.setThread thread slot ∧
      withoutPersonal slot = withoutPersonal (before.threads thread) := by
  have hthread : ∀ first second : Thread, first.withoutSignals = second.withoutSignals →
      ({ first.withoutSignals with fsBase := 0, gsBase := 0 } : Thread) =
        { second.withoutSignals with fsBase := 0, gsBase := 0 } := by
    intro first second heq
    rw [heq]
  cases h with
  | signal _ hsignal =>
    refine ⟨before.current, _, rfl, ?_⟩
    simp only [withoutPersonal, hthread _ _ hsignal.withoutSignals, running]
  | masked mask => exact ⟨before.current, _, rfl, rfl⟩
  | queued signal _ hpushed =>
    refine ⟨_, _, rfl, ?_⟩
    have heq := hthread _ _ (signalQueuePush_withoutSignals hpushed)
    simp only [withoutPersonal]
    rw [← heq]
    rfl
  | bases | tidAddress => exact ⟨before.current, _, rfl, rfl⟩

theorem PersonalChange.field
    (h : PersonalChange event before after) {α : Type*} (view : ThreadSlot → α)
    (hview : ∀ slot, view (withoutPersonal slot) = view slot) (thread : ThreadId) :
    view (after.threads thread) = view (before.threads thread) := by
  obtain ⟨changed, slot, rfl, hslot⟩ := h.setThread
  rw [setThread_threads]
  split
  next heq =>
    subst heq
    rw [← hview slot, hslot, hview]
  · rfl

/-- Why a process is reaped: a `wait4` has returned it, or reported it when the
running process was last waiting. -/
def Reaps (event : Event) (kernel : Kernel) : Prop :=
  (∃ user answers target userStatus options, event = .syscall user answers ∧
      user.syscallFrame.syscall = .wait4 target userStatus options) ∨
    (∃ answers, event = .yield answers) ∨
    ∃ parent, kernel.processCurrent = some parent ∧ (kernel.processes parent).pendingReapPid ≠ 0

/-- The threads that end with the process: all that it owns, or the current one if
it is the last. -/
def EndsProcess (kernel : Kernel) (process : ProcId) (ends : ThreadId → Prop) : Prop :=
  (∀ thread, ends thread ↔ EndsWith process kernel thread) ∨
    (∀ thread, ends thread ↔ thread = kernel.current) ∧
      (kernel.processes process).threadCount ≤ 1 ∧ kernel.running.state.live = true

/-- One change of the tables during an event; exec is kept apart. -/
inductive Change (event : Event) : Kernel → Kernel → Prop
  | moved {before after : Kernel} (hmove : Move event before after) : Change event before after
  | personal {before after : Kernel} (hpersonal : PersonalChange event before after) :
      Change event before after
  | action {kernel : Kernel} {process : ProcId} {user : UserState} {answers : Answers}
      {signal userNewAction userOldAction sigsetSize : Word} {action : SigAction}
      (hevent : event = .syscall user answers)
      (hcall : user.syscallFrame.syscall =
        .rtSigaction signal userNewAction userOldAction sigsetSize)
      (hread : userNewAction ≠ 0 ∧ copyinAction answers userNewAction = some action)
      (hprocess : kernel.processCurrent = some process) :
      Change event kernel (kernel.setSignalAction process signal action)
  | forked {kernel : Kernel} {parent child : ProcId} {thread : ThreadId}
      {user : UserState} {answers : Answers} (root : Word)
      (hevent : event = .syscall user answers)
      (hcall : user.syscallFrame.syscall = .fork)
      (hparent : kernel.processCurrent = some parent)
      (halive : (kernel.processes parent).alive = true)
      (hring : kernel.running.privilegeRing = 3)
      (hchild : child ≠ kernelProcess ∧ (kernel.processes child).pid = 0)
      (hthread : thread ≠ 0 ∧ (kernel.threads thread).state = .unused) :
      Change event kernel
        { (kernel.setThread thread (kernel.forkThread parent child thread kernel.nextTid root
            user.syscallFrame)).setProcess child (kernel.forkProcess parent thread root) with
          nextPid := kernel.nextPid + 1
          nextTid := kernel.nextTid + 1 }
  | cloned {kernel : Kernel} {process : ProcId} {thread : ThreadId} {user : UserState}
      {answers : Answers} {flags childStack parentTid tls childTid : Word}
      (hevent : event = .syscall user answers)
      (hcall : user.syscallFrame.syscall = .clone flags childStack parentTid tls childTid)
      (hprocess : kernel.processCurrent = some process)
      (halive : (kernel.processes process).alive = true)
      (hcaller : kernel.running.privilegeRing = 3 ∧ kernel.running.state.live = true)
      (hthread : thread ≠ 0 ∧ (kernel.threads thread).state = .unused) :
      Change event kernel
        { (kernel.setThread thread (kernel.cloneThread process thread kernel.nextTid flags
            childStack tls childTid user.syscallFrame)).setProcess process
            { kernel.processes process with
              threadCount := (kernel.processes process).threadCount + 1 } with
          nextTid := kernel.nextTid + 1 }
  | clearedThread {kernel : Kernel} {thread : ThreadId}
      (hthread : thread ≠ 0 ∧ (kernel.threads thread).state = .unused) :
      Change event kernel
        { kernel.setThread thread ThreadSlot.zero with nextTid := kernel.nextTid + 1 }
  | clearedProcess {kernel : Kernel} {process : ProcId}
      (hprocess : process ≠ kernelProcess ∧ (kernel.processes process).pid = 0) :
      Change event kernel
        { kernel.setProcess process ProcessSlot.zero with nextPid := kernel.nextPid + 1 }
  | threadEnded {kernel ended : Kernel} {process : ProcId}
      (hprocess : kernel.processCurrent = some process)
      (halive : kernel.current ≠ 0 ∧ (kernel.processes process).alive = true)
      (hlive : kernel.running.state.live = true)
      (hended : EndStep (fun thread => thread = kernel.current) kernel ended)
      (hmore : 1 < (kernel.processes process).threadCount) :
      Change event kernel (ended.setProcess process
        { kernel.processes process with
          threadCount := (kernel.processes process).threadCount - 1
          mainThread :=
            if (kernel.processes process).mainThread = some kernel.current then
              ended.firstLive process
            else (kernel.processes process).mainThread })
  | processEnded {kernel ended : Kernel} {process : ProcId} {ends : ThreadId → Prop}
      (main : Option ThreadId) (status : Word)
      (hprocess : kernel.processCurrent = some process)
      (halive : kernel.current ≠ 0 ∧ (kernel.processes process).alive = true)
      (hended : EndStep ends kernel ended)
      (hends : kernel.EndsProcess process ends) :
      Change event kernel (ended.setProcess process
        { (kernel.processes process).exited status with mainThread := main })
  | reaped {kernel : Kernel} {process : ProcId}
      (hprocess : process ≠ kernelProcess)
      (hdead : (kernel.processes process).alive = false ∧ (kernel.processes process).pid ≠ 0)
      (hcurrent : kernel.processCurrent ≠ some process) (hreaps : Reaps event kernel) :
      Change event kernel (kernel.reaped process)

abbrev Changes (event : Event) : Kernel → Kernel → Prop :=
  Relation.ReflTransGen (Change event)

theorem Changes.move (h : Move event before after) : Changes event before after :=
  .single (.moved h)

theorem Changes.mode (h : Changes event before after)
    (mode : Mode) : Changes event before { after with mode := mode } :=
  h.tail (.moved (.mode after mode))

/-- The running thread goes on: only its own records may change. -/
structure Stays (before after : Kernel) : Prop where
  current : after.current = before.current
  mode : after.mode = before.mode
  running : before.running.state = .running → after.running.scheduling = before.running.scheduling

namespace Stays

theorem refl (kernel : Kernel) : Stays kernel kernel := ⟨rfl, rfl, fun _ => rfl⟩

theorem state (h : Stays before after)
    (hrunning : before.running.state = .running) : after.running.state = .running :=
  (congrArg Prod.fst (h.running hrunning)).trans hrunning

theorem trans {first second third : Kernel} (h : Stays first second) (h' : Stays second third) :
    Stays first third :=
  ⟨h'.current.trans h.current, h'.mode.trans h.mode,
    fun hrunning => (h'.running (h.state hrunning)).trans (h.running hrunning)⟩

theorem setThread (hslot : kernel.running.state = .running → thread = kernel.current →
      slot.scheduling = kernel.running.scheduling) :
    Stays kernel (kernel.setThread thread slot) := by
  refine ⟨rfl, rfl, fun hrunning => ?_⟩
  unfold Kernel.running
  rw [setThread_current, setThread_threads]
  split
  next h => exact hslot hrunning h.symm
  · rfl

theorem of_unused (hunused : (before.threads thread).state = .unused)
    (hthreads : after.threads = Function.update before.threads thread slot)
    (hcurrent : after.current = before.current) (hmode : after.mode = before.mode) :
    Stays before after := by
  refine ⟨hcurrent, hmode, fun hrunning => ?_⟩
  have hother : before.current ≠ thread := by
    rintro rfl
    rw [Kernel.running, hunused] at hrunning
    cases hrunning
  rw [Kernel.running, hthreads, hcurrent, Function.update_of_ne hother]
  rfl

theorem setProcess (kernel : Kernel) (process : ProcId) (slot : ProcessSlot) :
    Stays kernel (kernel.setProcess process slot) := ⟨rfl, rfl, fun _ => rfl⟩

theorem of_fields (hthreads : after.threads = before.threads)
    (hcurrent : after.current = before.current) (hmode : after.mode = before.mode) :
    Stays before after := by
  refine ⟨hcurrent, hmode, fun _ => ?_⟩
  rw [Kernel.running, hthreads, hcurrent]
  rfl

theorem of_futex (h : FutexStep before after) : Stays before after := by
  refine ⟨h.current, h.mode, fun hrunning => ?_⟩
  rw [Kernel.running, h.current]
  rcases h.thread before.current with heq | ⟨result, heq⟩
  · rw [heq]
    rfl
  · have hstate : (before.threads before.current).state.woken = .running := by
      rw [show (before.threads before.current).state = .running from hrunning]
      rfl
    rw [heq, ThreadSlot.scheduling, ThreadSlot.futexCompleted, hstate, ← hrunning]
    rfl

end Stays

theorem PersonalChange.stays (h : PersonalChange event before after) : Stays before after := by
  obtain ⟨thread, slot, rfl, hslot⟩ := h.setThread
  refine .setThread ?_
  rintro - rfl
  have hview := congrArg ThreadSlot.scheduling hslot
  exact hview

/-- Changes of a call that returns to its caller. -/
abbrev QuietChanges (event : Event) : Kernel → Kernel → Prop :=
  Relation.ReflTransGen fun before after => Change event before after ∧ Stays before after

namespace QuietChanges

theorem changes (h : QuietChanges event before after) : Changes event before after :=
  Relation.ReflTransGen.mono (fun _ _ hquiet => hquiet.1) before after h

theorem stays (h : QuietChanges event before after) : Stays before after := by
  induction h with
  | refl => exact .refl before
  | tail _ hquiet ih => exact ih.trans hquiet.2

theorem personal (h : PersonalChange event before after) : QuietChanges event before after :=
  .single ⟨.personal h, h.stays⟩

theorem futex (h : FutexStep before after) : QuietChanges event before after :=
  .single ⟨.moved (.futex h), .of_futex h⟩

theorem clearedThread (hthread : thread ≠ 0 ∧ (kernel.threads thread).state = .unused) :
    QuietChanges event kernel
      { kernel.setThread thread ThreadSlot.zero with nextTid := kernel.nextTid + 1 } :=
  .single ⟨.clearedThread hthread, .of_unused hthread.2 rfl rfl rfl⟩

end QuietChanges

inductive Transition (event : Event) : Kernel → Kernel → Prop
  | changed {before after : Kernel} (hchange : Change event before after) :
      Transition event before after
  | switched {before after : Kernel} (hswitch : Switch before after) :
      Transition event before after

abbrev Transitions (event : Event) : Kernel → Kernel → Prop :=
  Relation.ReflTransGen (Transition event)

theorem Changes.transitions (h : Changes event before after) : Transitions event before after := by
  induction h with
  | refl => exact .refl
  | tail _ hchange ih => exact ih.tail (.changed hchange)

theorem Transitions.switch (h : Switch before after) : Transitions event before after :=
  .single (.switched h)

section Functions

variable {event : Event}

theorem reapProcess_running (kernel : Kernel) (process : ProcId) :
    (kernel.reapProcess process).current = kernel.current ∧
      (kernel.reapProcess process).running = kernel.running := by
  unfold reapProcess
  split
  · exact ⟨rfl, rfl⟩
  next h =>
    simp only [not_or] at h
    have howner : (kernel.threads kernel.current).owner ≠ some process := h.2.2.2
    exact ⟨rfl, by simp [running, howner]⟩

theorem reapProcess_quiet (process : ProcId) (hreaps : Reaps event kernel) :
    QuietChanges event kernel (kernel.reapProcess process) := by
  unfold reapProcess
  split
  · exact .refl
  next h =>
  simp only [not_or, Bool.not_eq_true] at h
  refine .single ⟨.reaped h.1 ⟨h.2.1, h.2.2.1⟩ h.2.2.2 hreaps, rfl, rfl, fun _ => ?_⟩
  have howner : (kernel.threads kernel.current).owner ≠ some process := h.2.2.2
  simp [running, howner]

theorem reapProcess_other {other : ProcId} (hother : other ≠ process) :
    (kernel.reapProcess process).processes other = kernel.processes other := by
  unfold reapProcess
  split
  · rfl
  · exact Function.update_of_ne hother _ _

theorem reapProcess_setProcess (kernel : Kernel) {parent : ProcId} (slot : ProcessSlot)
    (hother : parent ≠ process) :
    (kernel.setProcess parent slot).reapProcess process =
      (kernel.reapProcess process).setProcess parent slot := by
  have hprocess : (kernel.setProcess parent slot).processes process = kernel.processes process :=
    Function.update_of_ne hother.symm _ _
  have hcurrent : (kernel.setProcess parent slot).processCurrent = kernel.processCurrent := rfl
  unfold reapProcess
  rw [hprocess, hcurrent]
  split
  · rfl
  · simp only [setProcess, reaped]
    rw [Function.update_comm hother]
    rfl

theorem processReapPending_quiet (kernel : Kernel) :
    QuietChanges event kernel kernel.processReapPending := by
  unfold processReapPending
  split
  · exact .refl
  next parent hparent =>
  dsimp only
  split
  · exact .refl
  next hpending =>
  have htaken : QuietChanges event kernel (kernel.setProcess parent
      { kernel.processes parent with pendingReapPid := 0 }) :=
    .single ⟨.moved (.reapTaken hparent), .setProcess kernel _ _⟩
  split
  · exact htaken
  next child _ =>
  split
  · by_cases hother : parent = child
    · subst hother
      rw [reapProcess, if_pos (.inr (.inr (.inr hparent)))]
      exact htaken
    · rw [reapProcess_setProcess kernel _ hother, ← reapProcess_other hother]
      refine (reapProcess_quiet child (.inr (.inr ⟨parent, hparent, hpending⟩))).tail
        ⟨.moved (.reapTaken ?_), .setProcess _ _ _⟩
      rw [processCurrent, (reapProcess_running _ _).2]
      exact hparent
  · exact htaken

theorem endProcess_changes {ended : Kernel} {status : Word}
    (hended : Change event kernel (ended.setProcess process
      ((ended.processes process).exited status))) :
    Changes event kernel (endProcess answers ended process status) :=
  .tail (.single hended) (.moved (.reported answers (by simp)))

theorem processExitCurrent_changes (answers : Answers) (kernel : Kernel) (status : Word) :
    Changes event kernel (processExitCurrent answers kernel status) := by
  fun_cases processExitCurrent answers kernel status with
  | case3 process hprocess halive =>
    simp only [not_or, Bool.not_eq_true', Bool.not_eq_false] at halive
    have hstep : EndStep (EndsWith process kernel) kernel
        (exitThreads answers process threadIds kernel) :=
      (exitThreads_step answers process threadIds kernel).congr
        (fun thread => by simp [mem_threadIds])
    apply endProcess_changes
    rw [hstep.processes]
    exact .processEnded (kernel.processes process).mainThread status hprocess halive hstep
      (.inl fun _ => Iff.rfl)
  | _ => exact .refl

theorem processExitThreadCurrent_changes (answers : Answers) (kernel : Kernel) (status : Word)
    (hlive : kernel.running.state.live = true) :
    Changes event kernel (processExitThreadCurrent answers kernel status) := by
  unfold processExitThreadCurrent
  split
  · exact .refl
  next process hprocess =>
  split
  · exact .refl
  next halive =>
  simp only [not_or, Bool.not_eq_true', Bool.not_eq_false] at halive
  have howner : (kernel.threads kernel.current).owner = some process := hprocess
  have hstep := endThread_step answers howner
  dsimp only
  rw [hstep.processes]
  split
  next hlast =>
    apply endProcess_changes
    have hchange : Change event kernel _ := .processEnded
      (if (kernel.processes process).mainThread = some kernel.current then
          (endThread answers kernel kernel.current).firstLive process
        else (kernel.processes process).mainThread)
      status hprocess ⟨halive.1, halive.2.1⟩ hstep
      (.inr ⟨fun _ => Iff.rfl, by omega, hlive⟩)
    simpa [setProcess, ProcessSlot.exited] using hchange
  next hmore =>
    exact .single (.threadEnded hprocess ⟨halive.1, halive.2.1⟩ hlive hstep (by omega))

theorem processWait4_cases (answers : Answers) (kernel : Kernel) (target : ℤ)
    (userStatus options : Word) :
    (∃ parent, (kernel.processCurrent = some parent ∧ kernel.running.privilegeRing = 3 ∧
        options &&& PROCESS_WNOHANG = 0 ∧ kernel.exitedChild parent target = none) ∧
      (kernel.processWait4 answers target userStatus options).kernel =
        kernel.waitBlocked parent target userStatus) ∨
      (kernel.processWait4 answers target userStatus options).kernel = kernel ∨
      ∃ child, (kernel.processWait4 answers target userStatus options).kernel =
        kernel.reapProcess child := by
  fun_cases kernel.processWait4 answers target userStatus options with
  | case6 _ _ _ _ _ _ child => exact .inr (.inr ⟨child, rfl⟩)
  | case9 parent hparent _ hring _ _ hnone _ hblocks =>
    simp only [not_or, not_not] at hring hblocks
    exact .inl ⟨parent, ⟨hparent, hring.2, hblocks, hnone⟩, rfl⟩
  | _ => exact .inr (.inl rfl)

theorem processWait4_changes (kernel : Kernel)
    {target : ℤ} {userStatus options : Word} (hevent : event = .syscall user answers)
    (hcall : user.syscallFrame.syscall = .wait4 target userStatus options)
    (hlive : kernel.running.state.live = true) :
    Changes event kernel (kernel.processWait4 answers target userStatus options).kernel := by
  rcases processWait4_cases answers kernel target userStatus options with
    ⟨parent, ⟨hparent, -, hblocks, -⟩, heq⟩ | heq | ⟨child, heq⟩
  · rw [heq]
    have hwaited : Changes event kernel _ := .move (.waited hevent hcall hblocks hparent hlive)
    exact hwaited.mode _
  · rw [heq]
  · rw [heq]
    have hreaps : Reaps event kernel :=
      .inl ⟨user, answers, target, userStatus, options, hevent, hcall⟩
    exact (reapProcess_quiet _ hreaps).changes

theorem processWait4Tail_cases (answers : Answers) (kernel : Kernel) :
    (kernel.processCurrent = none ∧ (processWait4Tail answers kernel).2 = kernel) ∨
      ∃ parent, kernel.processCurrent = some parent ∧
        ((processWait4Tail answers kernel).2 = kernel.awakened parent ∨
          ∃ child, (processWait4Tail answers kernel).2 =
            (kernel.awakened parent).reapProcess child) := by
  fun_cases processWait4Tail answers kernel with
  | case1 hnone => exact .inl ⟨hnone, rfl⟩
  | case7 parent hparent => exact .inr ⟨parent, hparent, .inr ⟨_, rfl⟩⟩
  | _ parent hparent => exact .inr ⟨parent, hparent, .inl rfl⟩

theorem processWait4Tail_changes (answers : Answers) (kernel : Kernel)
    (hevent : ∃ answers, event = .yield answers) (hlive : kernel.running.state.live = true) :
    Changes event kernel (processWait4Tail answers kernel).2 := by
  rcases processWait4Tail_cases answers kernel with ⟨-, heq⟩ | ⟨parent, hparent, hcases⟩
  · rw [heq]
  have hawake : Changes event kernel (kernel.awakened parent) :=
    .move (.waitEnded hevent hparent hlive)
  rcases hcases with heq | ⟨child, heq⟩
  · rw [heq]
    exact hawake
  · rw [heq]
    exact hawake.trans (reapProcess_quiet _ (.inr (.inl hevent))).changes

theorem processFutexWaitTail_changes (kernel : Kernel) (hlive : kernel.running.state.live = true) :
    Changes event kernel kernel.processFutexWaitTail.2 := by
  unfold processFutexWaitTail
  dsimp only
  split
  · have hcancel := (futexCompleteThread_step kernel kernel.current (-PROCESS_EINTR))
    have hcurrent : (kernel.futexCancelThread kernel.current).running.state.live = true := by
      unfold running futexCancelThread
      rw [hcancel.current, hcancel.live]
      exact hlive
    refine (Changes.move (.futex hcancel)).tail (.moved (.futexEnded _ _ hcurrent rfl ?_))
    intro _ i hactive hthread
    have hname : (kernel.futexWaiters i).thread = kernel.current :=
      (hcancel.name i).symm.trans (hthread.trans hcancel.current)
    have hfree := futexCompleteThread_free kernel kernel.current (-PROCESS_EINTR) hname
    rw [show _ = true from hactive] at hfree
    cases hfree
  next hnone =>
    refine .move (.futexEnded _ _ hlive (Bool.eq_false_of_not_eq_true hnone).symm ?_)
    intro hwaiting
    cases hwaiting

theorem sysFutex_cases (answers : Answers) (kernel : Kernel) (userAddress operation : Word)
    (value : BitVec 32) (userTimeout : Word) :
    (∃ waiters, (operation &&& 0x7f = 0 ∧ kernel.running.privilegeRing = 3) ∧
      (kernel.sysFutex answers userAddress operation value userTimeout).kernel =
        kernel.futexBlocked waiters) ∨
      FutexStep kernel
        (kernel.sysFutex answers userAddress operation value userTimeout).kernel := by
  fun_cases kernel.sysFutex answers userAddress operation value userTimeout with
  | case3 _ hwait blocked hblocked =>
    obtain ⟨hring, waiters, rfl⟩ := processFutexWait_ok hblocked
    exact .inl ⟨waiters, ⟨hwait, hring⟩, rfl⟩
  | case4 => exact .inr (processFutexWake_step kernel _ _)
  | _ => exact .inr (.refl kernel)

theorem sysFutex_changes (kernel : Kernel)
    {userAddress operation : Word} {value : BitVec 32} {userTimeout : Word}
    (hevent : event = .syscall user answers)
    (hcall : user.syscallFrame.syscall = .futex userAddress operation value userTimeout)
    (hlive : kernel.running.state.live = true) :
    Changes event kernel
      (kernel.sysFutex answers userAddress operation value userTimeout).kernel := by
  rcases sysFutex_cases answers kernel userAddress operation value userTimeout with
    ⟨waiters, ⟨hwait, hring⟩, heq⟩ | hstep
  · rw [heq]
    exact .move (.futexBlocked hevent hcall hwait hring hlive waiters)
  · exact .move (.futex hstep)

theorem setThread_setThread (kernel : Kernel) (thread : ThreadId) (first second : ThreadSlot) :
    (kernel.setThread thread first).setThread thread second = kernel.setThread thread second := by
  simp [setThread]

theorem freeProcess_some (h : kernel.freeProcess = some process) :
    process ≠ kernelProcess ∧ (kernel.processes process).pid = 0 := by
  have hfound := List.find?_some h
  simpa using hfound

/-- A fork that fails early changes nothing; one that fails late has used up
its numbers and cleared the two slots it had taken. -/
theorem processFork_cases (answers : Answers) (kernel : Kernel) (frame : SyscallFrame) :
    (kernel.processFork answers frame).2 = kernel ∨
      ∃ parent child thread, kernel.processCurrent = some parent ∧
        (kernel.processes parent).alive = true ∧ kernel.running.privilegeRing = 3 ∧
        kernel.freeProcess = some child ∧
        (thread ≠ 0 ∧ (kernel.threads thread).state = .unused) ∧
        ((kernel.processFork answers frame).2 =
            { (kernel.setThread thread ThreadSlot.zero).setProcess child ProcessSlot.zero with
              nextPid := kernel.nextPid + 1
              nextTid := kernel.nextTid + 1 } ∨
          (kernel.processFork answers frame).2 =
            { (kernel.setThread thread (kernel.forkThread parent child thread kernel.nextTid
                answers.vmmCloneUserSpace frame)).setProcess child
                (kernel.forkProcess parent thread answers.vmmCloneUserSpace) with
              nextPid := kernel.nextPid + 1
              nextTid := kernel.nextTid + 1 }) := by
  fun_cases kernel.processFork answers frame with
  | case1 | case2 | case3 | case4 | case5 => exact .inl rfl
  | _ parent hparent halive child hchild _ thread taken htaken =>
    simp only [not_or, Bool.not_eq_true', Bool.not_eq_false] at halive
    obtain ⟨hzero, hunused, rfl⟩ := allocateThread_some kernel htaken
    refine .inr ⟨parent, child, thread, hparent, halive.1, not_not.mp halive.2, hchild,
      ⟨hzero, hunused⟩, ?_⟩
    first
    | (left; simp +zetaDelta [setThread, setProcess]; done)
    | (right; simp +zetaDelta [setThread, setProcess])

theorem processFork_quiet (kernel : Kernel)
    (hevent : event = .syscall user answers) (hcall : user.syscallFrame.syscall = .fork) :
    QuietChanges event kernel (kernel.processFork answers user.syscallFrame).2 := by
  rcases processFork_cases answers kernel user.syscallFrame with hsame |
    ⟨parent, child, thread, hparent, halive, hring, hchild, hthread, hundone | hforked⟩
  · rw [hsame]
  · rw [hundone]
    exact (QuietChanges.clearedThread hthread).tail
      ⟨.clearedProcess (freeProcess_some hchild), .of_fields rfl rfl rfl⟩
  · rw [hforked]
    exact .single ⟨.forked answers.vmmCloneUserSpace hevent hcall hparent halive hring
      (freeProcess_some hchild) hthread, .of_unused hthread.2 rfl rfl rfl⟩

/-- Clearing the word of a thread that is then forgotten: the others are only
scheduled. -/
theorem clearChildTid_forgotten (answers : Answers) {created : Kernel} {slot : ThreadSlot}
    (hcreated : created = { kernel.setThread thread slot with nextTid := kernel.nextTid + 1 })
    (hthread : thread ≠ 0 ∧ (kernel.threads thread).state = .unused) :
    QuietChanges event kernel
      ((clearChildTid answers created thread).setThread thread ThreadSlot.zero) := by
  obtain ⟨stored, hstored, hfinal⟩ : ∃ stored, FutexStep created stored ∧
      (clearChildTid answers created thread).setThread thread ThreadSlot.zero =
        stored.setThread thread ThreadSlot.zero := by
    rcases clearChildTid_step answers created thread with ⟨hsame, -⟩ | ⟨stored, hstored, heq⟩
    · exact ⟨created, .refl created, by rw [hsame]⟩
    · exact ⟨stored, hstored, by rw [heq, setThread_setThread]⟩
  -- the same completions without the new thread
  obtain ⟨record, hrecord, hunused⟩ : ∃ record, Settled kernel stored thread record ∧
      record.state = .unused := by
    have hsettled := hstored.settled thread
    subst hcreated
    rcases hsettled with ⟨-, hkept⟩ | ⟨result, -, hfreed⟩
    · exact ⟨kernel.threads thread, .inl ⟨rfl, hkept⟩, hthread.2⟩
    · refine ⟨(kernel.threads thread).futexCompleted result, .inr ⟨result, rfl, hfreed⟩, ?_⟩
      rw [ThreadSlot.futexCompleted, hthread.2]
      rfl
  have hfutex : FutexStep kernel
      { stored.setThread thread record with nextTid := kernel.nextTid } := by
    have hrest := hstored.rest
    have hothers := hstored.settled
    subst hcreated
    refine ⟨?_, ?_⟩
    · rw [hrest]
      rfl
    · intro other
      by_cases h : other = thread
      · subst h
        rw [show ({ stored.setThread other record with nextTid := kernel.nextTid } :
          Kernel).threads other = record by simp]
        exact hrecord
      · have hother := hothers other
        simpa [Settled, setThread, h] using hother
  have hnextTid : stored.nextTid = kernel.nextTid + 1 := by
    rw [hstored.rest, hcreated]
  have hzero : QuietChanges event
      { stored.setThread thread record with nextTid := kernel.nextTid } _ :=
    .clearedThread ⟨hthread.1, by simpa using hunused⟩
  rw [hfinal]
  have hchain : QuietChanges event kernel _ := (QuietChanges.futex hfutex).trans hzero
  have heq : ({ ({ stored.setThread thread record with
      nextTid := kernel.nextTid } : Kernel).setThread thread ThreadSlot.zero with
        nextTid := kernel.nextTid + 1 } : Kernel) = stored.setThread thread ThreadSlot.zero := by
    rw [← hnextTid]
    simp [setThread]
  rw [← heq]
  exact hchain

theorem processClone_quiet (kernel : Kernel) {flags childStack parentTid tls childTid : Word}
    (hevent : event = .syscall user answers)
    (hcall : user.syscallFrame.syscall = .clone flags childStack parentTid tls childTid)
    (hlive : kernel.running.state.live = true) :
    QuietChanges event kernel (kernel.processClone answers flags childStack parentTid tls childTid
      user.syscallFrame).2 := by
  unfold processClone
  split
  · exact .refl
  next process hprocess =>
  split
  · exact .refl
  next halive =>
  simp only [not_or, Bool.not_eq_true', Bool.not_eq_false] at halive
  split
  · exact .refl
  split
  · exact .refl
  next thread taken htaken =>
  obtain ⟨hzero, hunused, rfl⟩ := allocateThread_some kernel htaken
  have hundone : QuietChanges event kernel
      (({ kernel.setThread thread
          { ThreadSlot.zero with tid := kernel.nextTid, state := .ready } with
            nextTid := kernel.nextTid + 1 }).setThread thread ThreadSlot.zero) := by
    have hcleared : QuietChanges event kernel _ := .clearedThread ⟨hzero, hunused⟩
    simpa [setThread] using hcleared
  dsimp only
  split
  · exact hundone
  split
  · exact hundone
  split
  · exact hundone
  split
  · exact clearChildTid_forgotten answers (by simp [setThread]; rfl) ⟨hzero, hunused⟩
  · have hcloned : Change event kernel _ :=
      .cloned hevent hcall hprocess halive.1 ⟨not_not.mp halive.2, hlive⟩ ⟨hzero, hunused⟩
    have hquiet : QuietChanges event kernel _ :=
      .single ⟨hcloned, .of_unused hunused rfl rfl rfl⟩
    simpa [setThread, setProcess] using hquiet

/-! ## Signals -/

theorem queueSignalToThread_quiet (kernel : Kernel) (target : ThreadId) (signal : Word)
    (hinfo : ∀ record ∈ info, Queues event record) :
    QuietChanges event kernel (kernel.queueSignalToThread target signal info).2 := by
  unfold queueSignalToThread
  dsimp only
  split
  · exact .refl
  split
  · exact .refl
  next pushed hpushed =>
  have hqueued : QuietChanges event kernel _ := .personal (.queued signal hinfo hpushed)
  split
  · exact hqueued.trans (QuietChanges.futex (futexCompleteThread_step _ _ _))
  · exact hqueued

theorem processSendSignalInfo_quiet (kernel : Kernel) (pid : ℤ) (signal : Word)
    (hinfo : ∀ record ∈ info, Queues event record) :
    QuietChanges event kernel (kernel.processSendSignalInfo pid signal info).2 := by
  fun_cases kernel.processSendSignalInfo pid signal info with
  | case6 => exact queueSignalToThread_quiet _ _ _ hinfo
  | _ => exact .refl

theorem processSendThreadSignalInfo_quiet (kernel : Kernel) (tgid tid : ℤ) (signal : Word)
    (hinfo : ∀ record ∈ info, Queues event record) :
    QuietChanges event kernel (kernel.processSendThreadSignalInfo tgid tid signal info).2 := by
  fun_cases kernel.processSendThreadSignalInfo tgid tid signal info with
  | case6 => exact queueSignalToThread_quiet _ _ _ hinfo
  | _ => exact .refl

variable {userInfo sigsetSize : Word}

theorem sysRtSigqueueinfo_quiet (kernel : Kernel)
    {pid : ℤ} (hevent : event = .syscall user answers)
    (hcall : user.syscallFrame.syscall = .rtSigqueueinfo pid signal userInfo) :
    QuietChanges event kernel (kernel.sysRtSigqueueinfo answers pid signal userInfo).2 := by
  unfold sysRtSigqueueinfo
  split
  · exact .refl
  next info hinfo =>
    refine processSendSignalInfo_quiet kernel _ _ ?_
    rintro record ⟨⟩
    exact ⟨user, answers, kernel, signal, userInfo, hevent, hinfo, .inl ⟨pid, hcall⟩⟩

theorem sysRtTgsigqueueinfo_quiet (kernel : Kernel)
    {tgid tid : ℤ} (hevent : event = .syscall user answers)
    (hcall : user.syscallFrame.syscall = .rtTgsigqueueinfo tgid tid signal userInfo) :
    QuietChanges event kernel (kernel.sysRtTgsigqueueinfo answers tgid tid signal userInfo).2 := by
  unfold sysRtTgsigqueueinfo
  split
  · exact .refl
  next info hinfo =>
    refine processSendThreadSignalInfo_quiet kernel _ _ _ ?_
    rintro record ⟨⟩
    exact ⟨user, answers, kernel, signal, userInfo, hevent, hinfo, .inr ⟨tgid, tid, hcall⟩⟩

theorem sysRtSigaction_quiet (kernel : Kernel) {userNewAction userOldAction : Word}
    (hevent : event = .syscall user answers) (hcall : user.syscallFrame.syscall =
      .rtSigaction signal userNewAction userOldAction sigsetSize) :
    QuietChanges event kernel
      (kernel.sysRtSigaction answers signal userNewAction userOldAction sigsetSize).2 := by
  fun_cases kernel.sysRtSigaction answers signal userNewAction userOldAction sigsetSize with
  | case7 process hprocess _ _ _ hnew action haction =>
    exact .single ⟨.action hevent hcall ⟨hnew, haction⟩ hprocess, .setProcess kernel _ _⟩
  | _ => exact .refl

theorem sysRtSigprocmask_quiet (answers : Answers) (kernel : Kernel)
    (operation userSet userOldSet sigsetSize : Word) :
    QuietChanges event kernel
      (kernel.sysRtSigprocmask answers operation userSet userOldSet sigsetSize).2 := by
  fun_cases kernel.sysRtSigprocmask answers operation userSet userOldSet sigsetSize with
  | case6 => exact .personal (.masked _ _)
  | _ => exact .refl

theorem sysPpollTail_quiet (kernel : Kernel) (mask : Option Word) :
    QuietChanges event kernel (kernel.sysPpollTail mask) := by
  cases mask with
  | none => exact .refl
  | some mask => exact .personal (.masked _ _)

theorem sysPpoll_quiet {masked : Kernel} {mask : Option Word} {userSigmask : Word}
    (h : kernel.sysPpoll answers userSigmask sigsetSize = .ok (masked, mask)) :
    QuietChanges event kernel masked := by
  revert h
  fun_cases kernel.sysPpoll answers userSigmask sigsetSize <;> rintro ⟨⟩
  · exact .refl
  · exact .personal (.masked _ _)

theorem sysArchPrctl_quiet (answers : Answers) (kernel : Kernel) (operation argument : Word) :
    QuietChanges event kernel (kernel.sysArchPrctl answers operation argument).2 := by
  fun_cases kernel.sysArchPrctl answers operation argument with
  | case4 => exact .personal (.bases kernel argument kernel.running.gsBase)
  | case6 => exact .personal (.bases kernel kernel.running.fsBase argument)
  | _ => exact .refl

theorem processSetTidAddress_quiet (kernel : Kernel)
    {address : Word} (hevent : event = .syscall user answers)
    (hcall : user.syscallFrame.syscall = .setTidAddress address) :
    QuietChanges event kernel (kernel.processSetTidAddress address).2 := by
  fun_cases kernel.processSetTidAddress address with
  | case4 => exact .personal (.tidAddress hevent hcall)
  | _ => exact .refl

@[simp]
theorem putThread_running (kernel : Kernel) :
    kernel.putThread kernel.running.toThread = kernel := by
  simp [putThread, setThread, running]

@[simp]
theorem putThread_putThread (kernel : Kernel) (first second : Thread) :
    (kernel.putThread first).putThread second = kernel.putThread second := by
  simp [putThread, setThread, running]

@[simp]
theorem running_putThread (kernel : Kernel) (thread : Thread) :
    (kernel.putThread thread).running = { kernel.running with toThread := thread } := by
  simp [putThread, running]

@[simp]
theorem putThread_processes (kernel : Kernel) (thread : Thread) :
    (kernel.putThread thread).processes = kernel.processes := rfl

theorem QuietChanges.putThread {thread next : Thread}
    (h : QuietChanges event kernel (kernel.putThread thread)) (howner : thread.owner = some process)
    (hnext : SignalChange (kernel.processes process).toProcess thread next) :
    QuietChanges event kernel (kernel.putThread next) := by
  have hprocess : (kernel.putThread thread).processCurrent = some process := by
    simp [processCurrent, howner]
  have hchange : QuietChanges event (kernel.putThread thread)
      ((kernel.putThread thread).putThread next) :=
    .personal (.signal hprocess (by simpa using hnext))
  rw [putThread_putThread] at hchange
  exact h.trans hchange

theorem takePendingSignal_owner (thread : Thread) (signal : Word) :
    (takePendingSignal thread signal).1.owner = thread.owner := by
  have h := congrArg (fun thread : Thread => thread.owner)
    (takePendingSignal_withoutSignals thread signal)
  exact h

def pendingThread : PendingOutcome Unit → Thread
  | .none task => task.thread
  | .delivered task _ => task.thread
  | .terminated task _ => task.thread

theorem deliverPendingFrom_quiet (access : UserAccess Unit)
    (deliverable : Word) (numbers : List ℕ) {task : SignalTask Unit}
    (frame : Stack Word) (htask : task.process = (kernel.processes process).toProcess)
    (howner : task.thread.owner = some process)
    (h : QuietChanges event kernel (kernel.putThread task.thread)) :
    QuietChanges event kernel (kernel.putThread
        (pendingThread (deliverPendingFrom access deliverable numbers task frame))) ∧
      (pendingThread (deliverPendingFrom access deliverable numbers task frame)).owner =
        some process := by
  induction numbers generalizing task with
  | nil => exact ⟨h, howner⟩
  | cons number numbers ih =>
    rw [deliverPendingFrom]
    dsimp only
    split
    · exact ih htask howner h
    set signal := BitVec.ofNat 64 number
    have htook : QuietChanges event kernel
        (kernel.putThread (takePendingSignal task.thread signal).1) :=
      QuietChanges.putThread h howner (.took _ _)
    have htookOwner : (takePendingSignal task.thread signal).1.owner = some process := by
      rw [takePendingSignal_owner, howner]
    split
    · exact ih htask htookOwner htook
    split
    · exact ⟨htook, htookOwner⟩
    next hcatchable =>
    simp only [not_or, Bool.not_eq_true] at hcatchable
    rcases processDeliverSignalWithInfo_cases access
        { task with thread := (takePendingSignal task.thread signal).1 } frame signal
        (takePendingSignal task.thread signal).2 with
      ⟨memory, heq⟩ | ⟨memory, -, -, -, heq⟩
    · rw [heq]
      exact ⟨htook, htookOwner⟩
    · rw [heq]
      refine ⟨QuietChanges.putThread htook htookOwner ?_, htookOwner⟩
      dsimp only
      rw [htask]
      exact .entered _ _ _ _ hcatchable.1

theorem processDeliverPendingCommon_quiet (event : Event) (access : UserAccess Unit)
    (frame : Stack Word) (hprocess : kernel.processCurrent = some process) :
    QuietChanges event kernel (kernel.putThread (pendingThread
        (processDeliverPendingCommon access (kernel.signalTask process) frame))) ∧
      (pendingThread (processDeliverPendingCommon access
        (kernel.signalTask process) frame)).owner = some process := by
  have hstart : QuietChanges event kernel
      (kernel.putThread (kernel.signalTask process).thread) := by
    rw [signalTask, putThread_running]
  unfold processDeliverPendingCommon
  split
  · exact ⟨hstart, hprocess⟩
  · exact deliverPendingFrom_quiet access _ _ frame rfl hprocess hstart

theorem terminateBySignal_changes (answers : Answers) (kernel : Kernel) (signal : Word) :
    Changes event kernel (terminateBySignal answers kernel signal) :=
  (processExitCurrent_changes answers kernel _).mode _

/-- Either the thread goes on, with a handler entered or not, or its process ends. -/
theorem deliverPendingSignal_cases (event : Event) (answers : Answers) (kernel : Kernel)
    (frame : Stack Word) :
    ∃ delivered, QuietChanges event kernel delivered ∧
      ((∃ words, kernel.deliverPendingSignal answers frame = (delivered, some words)) ∨
        ∃ signal, kernel.deliverPendingSignal answers frame =
          (terminateBySignal answers delivered signal, none)) := by
  unfold deliverPendingSignal
  split
  · exact ⟨kernel, .refl, .inl ⟨_, rfl⟩⟩
  next process hprocess =>
  have hthread := (processDeliverPendingCommon_quiet event answers.access frame hprocess).1
  split
  next task heq =>
    rw [heq] at hthread
    exact ⟨_, hthread, .inl ⟨_, rfl⟩⟩
  next task words heq =>
    rw [heq] at hthread
    exact ⟨_, hthread, .inl ⟨_, rfl⟩⟩
  next task signal heq =>
    rw [heq] at hthread
    exact ⟨_, hthread, .inr ⟨_, rfl⟩⟩

theorem deliverPendingSignal_changes (answers : Answers) (kernel : Kernel) (frame : Stack Word) :
    Changes event kernel (kernel.deliverPendingSignal answers frame).1 := by
  obtain ⟨delivered, hquiet, ⟨words, heq⟩ | ⟨signal, heq⟩⟩ :=
    deliverPendingSignal_cases event answers kernel frame
  · rw [heq]
    exact hquiet.changes
  · rw [heq]
    exact hquiet.changes.trans (terminateBySignal_changes answers _ _)

theorem sysRtSigreturn_quiet (answers : Answers) (kernel : Kernel) (frame : SyscallFrame) :
    QuietChanges event kernel (kernel.sysRtSigreturn answers frame).2.1 := by
  unfold sysRtSigreturn
  split
  · exact .refl
  next process hprocess =>
  dsimp only
  by_cases haccepted : SigreturnAccepted answers.access (kernel.signalTask process) frame
  · rw [processSigreturn_accepted answers.access haccepted]
    exact .personal (.signal hprocess (.left _))
  · obtain ⟨memory, heq⟩ := processSigreturn_rejected answers.access haccepted
    rw [heq, signalTask, putThread_running]

theorem exceptionSignal_catchable (vector : Word) :
    signalUncatchable (exceptionSignal vector) = false := by
  unfold exceptionSignal
  split <;> decide

theorem raiseException_cases (answers : Answers) (kernel : Kernel) (frame : Stack Word)
    (signal : Word) :
    kernel.raiseException answers frame signal = terminateBySignal answers kernel signal ∨
      ∃ process user, kernel.processCurrent = some process ∧
        kernel.raiseException answers frame signal = kernel.putThread
          (enterHandlerThread (kernel.signalTask process).thread frame
            ((kernel.signalTask process).process.signalActions signal.toNat) user signal) := by
  unfold raiseException
  split
  · exact .inl rfl
  next process hprocess =>
  unfold processDeliverSignal
  rcases processDeliverSignalWithInfo_cases answers.access (kernel.signalTask process) frame
      signal none with ⟨memory, heq⟩ | ⟨memory, -, -, -, heq⟩
  · exact .inl (by rw [heq])
  · exact .inr ⟨process, _, hprocess, by rw [heq]⟩

theorem raiseException_changes (answers : Answers) (kernel : Kernel) (frame : Stack Word)
    (hcatchable : signalUncatchable signal = false) :
    Changes event kernel (kernel.raiseException answers frame signal) := by
  rcases raiseException_cases answers kernel frame signal with heq | ⟨_, _, hprocess, heq⟩
  · rw [heq]
    exact terminateBySignal_changes answers kernel signal
  · rw [heq]
    exact .single (.personal (.signal hprocess (.entered _ _ _ _ hcatchable)))

/-! ## Scheduling -/

theorem returnFrom_changes (answers : Answers) (kernel : Kernel) (site : YieldSite)
    (hevent : site = .wait4 → ∃ answers, event = .yield answers)
    (hlive : site ≠ .exit → kernel.running.state.live = true) :
    Changes event kernel (returnFrom answers kernel site) := by
  cases site with
  | wait4 =>
    exact (processWait4Tail_changes answers kernel (hevent rfl) (hlive (by decide))).mode _
  | futex =>
    have htail : Changes event kernel _ :=
      (processFutexWaitTail_changes kernel (hlive (by decide))).mode .user
    unfold returnFrom
    dsimp only
    split
    · exact htail.trans (deliverPendingSignal_changes answers _ _)
    · exact htail
  | schedYield => exact .move (.mode _ _)
  | terminal => exact (Changes.move (.terminalResumed kernel)).mode _
  | idle | exit => exact .move (.mode _ _)

theorem resumeFrame_changes (answers : Answers) (kernel : Kernel) (frame : FramePtr) :
    Changes event kernel (resumeFrame answers kernel frame) := by
  unfold resumeFrame
  dsimp only
  split
  · have hdelivered : Changes event kernel _ :=
      deliverPendingSignal_changes answers kernel (kernel.frameWords frame)
    split
    next words heq =>
      rw [heq] at hdelivered
      have hframed : Changes event kernel _ := hdelivered.tail (.moved (.framed _ words))
      exact hframed.mode _
    next heq =>
      rw [heq] at hdelivered
      exact hdelivered
  · exact .move (.mode _ _)

theorem idleLoop_changes (kernel : Kernel) : Changes event kernel kernel.idleLoop := by
  unfold idleLoop
  split
  · exact .move (.mode _ _)
  · exact .refl

theorem kernelTick_changes (kernel : Kernel) : Changes event kernel kernel.kernelTick := by
  have hticked : Changes event kernel { kernel with timerTicks := kernel.timerTicks + 1 } :=
    .move (.clock _ _ _)
  have hexpired := hticked.tail (.moved (.futex (futexExpireWaiters_step _)))
  unfold kernelTick
  refine Relation.ReflTransGen.trans ?_ (idleLoop_changes _)
  exact hexpired.tail (.moved (.clock _ _ _))

theorem enqueueByte_changes (kernel : Kernel) : Changes event kernel kernel.enqueueByte := by
  have hdropped : Changes event kernel
      { kernel with inputQueued := kernel.inputQueued + 1, inputWaiter := none } :=
    .move (.outside rfl rfl rfl rfl rfl rfl (.inr rfl))
  unfold enqueueByte
  split
  · dsimp only
    refine Relation.ReflTransGen.trans ?_ (idleLoop_changes _)
    split
    next waiter hwaiter =>
      unfold schedulerWakeThread
      split
      next hblocked =>
        have hstate : (kernel.threads waiter).state = .blocked := hblocked
        exact (Changes.move (.keyed hstate hwaiter)).tail
          (.moved (.outside rfl rfl rfl rfl rfl rfl (.inl rfl)))
      · exact hdropped
    · exact hdropped
  · exact .refl

theorem keyboardGetchar_changes {more : Bool} (hevent : event = .getchar more)
    (hlive : kernel.running.state.live = true) :
    Changes event kernel (kernel.keyboardGetchar more) := by
  unfold keyboardGetchar
  split
  · exact .move (.outside rfl rfl rfl rfl rfl rfl (.inl rfl))
  · exact (Changes.move (.terminalBlocked hevent hlive)).tail (.moved (.mode _ _))

/-! ## Events -/

theorem returnDelivering_changes (answers : Answers) (result : Word) (kernel : Kernel)
    (frame : SyscallFrame) :
    Changes event kernel (returnDelivering answers result kernel frame).kernel := by
  have hdelivered : Changes event kernel _ :=
    deliverPendingSignal_changes answers kernel frame.wrapper
  unfold returnDelivering
  split
  next heq =>
    rw [heq] at hdelivered
    exact hdelivered
  next heq =>
    rw [heq] at hdelivered
    exact hdelivered

theorem returnSignalCall_changes {call : Word × Kernel}
    (frame : SyscallFrame) (hcall : Changes event kernel call.2) :
    Changes event kernel (returnSignalCall answers call frame).kernel := by
  unfold returnSignalCall
  split
  · exact hcall.trans (returnDelivering_changes answers _ _ frame)
  · exact hcall

theorem enterSyscall_changes (kernel : Kernel) (frame : SyscallFrame) :
    Changes event kernel (kernel.enterSyscall frame) := by
  refine Relation.ReflTransGen.trans ?_ (processReapPending_quiet _).changes
  exact Changes.move (.entered kernel frame)

theorem syscallDispatch_changes (kernel : Kernel)
    (hevent : event = .syscall user answers) (hlive : kernel.running.state.live = true)
    (hexec : user.syscallFrame.syscall ≠ .execve) :
    Changes event kernel (syscallDispatch answers kernel user.syscallFrame).kernel := by
  unfold syscallDispatch
  cases hcall : user.syscallFrame.syscall with
  | read | sleep =>
    dsimp only
    split
    · exact .move (.mode _ _)
    · exact .refl
  | ppoll userSigmask sigsetSize =>
    dsimp only
    split
    · exact .refl
    next masked mask hmasked =>
    have hmaskedChanges : Changes event kernel masked := (sysPpoll_quiet hmasked).changes
    split
    · exact hmaskedChanges.mode _
    · exact hmaskedChanges.trans (sysPpollTail_quiet _ _).changes
  | schedYield => exact .move (.mode _ _)
  | rtSigaction => exact (sysRtSigaction_quiet kernel hevent hcall).changes
  | rtSigprocmask =>
    exact returnSignalCall_changes _ (sysRtSigprocmask_quiet answers kernel _ _ _ _).changes
  | rtSigreturn =>
    have hreturned : Changes event kernel _ :=
      (sysRtSigreturn_quiet answers kernel user.syscallFrame).changes
    dsimp only
    split
    · exact hreturned
    · exact hreturned.trans (returnDelivering_changes answers _ _ _)
  | clone => exact (processClone_quiet kernel hevent hcall hlive).changes
  | fork => exact (processFork_quiet kernel hevent hcall).changes
  | execve => exact absurd hcall hexec
  | exit status =>
    exact (processExitThreadCurrent_changes answers kernel status hlive).mode _
  | exitGroup status =>
    exact (processExitCurrent_changes answers kernel status).mode _
  | wait4 => exact processWait4_changes kernel hevent hcall hlive
  | kill =>
    refine returnSignalCall_changes _ (processSendSignalInfo_quiet kernel _ _ ?_).changes
    rintro record ⟨⟩
  | rtSigqueueinfo =>
    exact returnSignalCall_changes _ (sysRtSigqueueinfo_quiet kernel hevent hcall).changes
  | archPrctl => exact (sysArchPrctl_quiet answers kernel _ _).changes
  | futex => exact sysFutex_changes kernel hevent hcall hlive
  | setTidAddress => exact (processSetTidAddress_quiet kernel hevent hcall).changes
  | tgkill =>
    refine returnSignalCall_changes _ (processSendThreadSignalInfo_quiet kernel _ _ _ ?_).changes
    rintro record ⟨⟩
  | rtTgsigqueueinfo =>
    exact returnSignalCall_changes _ (sysRtTgsigqueueinfo_quiet kernel hevent hcall).changes
  | other => exact .refl

end Functions

end Kernel

end NPKernel
