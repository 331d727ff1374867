import NPKernel.ParkedThreads
import NPKernel.ThreadAccounts

/-!
# The table of futex waiters

In runs without `wait4` and exec the table is exact: a thread is marked as
waiting exactly when one active slot names it, and the slot has the address and
the address space of its wait.  With `wait4` a report may make a thread ready
that waits on a futex, and an exec takes the address space away.
-/

namespace NPKernel

open RegisterStack GuardedRuns

variable {thread : ThreadId} {slot : ThreadSlot} {process : ProcId} {ended : Kernel}
  {record : ProcessSlot} {site : YieldSite} {user : UserState} {answers : Answers}

/-- The address of the last `FUTEX_WAIT` in which each thread has blocked. -/
abbrev FutexAddresses := ThreadId → Option Word

def noteAddress (addresses : FutexAddresses) (kernel : Kernel) (event : Event) (next : Kernel) :
    FutexAddresses :=
  match event with
  | .syscall user _ =>
    match user.syscallFrame.syscall, next.mode with
    | .futex userAddress _ _ _, .yielding .futex =>
      Function.update addresses kernel.current (some userAddress)
    | _, _ => addresses
  | _ => addresses

def Event.waitsOrExecs : Event → Bool
  | .syscall user _ =>
    match user.syscallFrame.syscall with
    | .wait4 .. | .execve => true
    | _ => false
  | _ => false

/-- The event neither waits, nor ends a wait, nor marks the current thread as
running or blocked. -/
def Event.Steady : Event → Prop
  | .syscall user _ =>
    (∀ target userStatus options, user.syscallFrame.syscall ≠ .wait4 target userStatus options) ∧
      ∀ userAddress operation value userTimeout,
        user.syscallFrame.syscall ≠ .futex userAddress operation value userTimeout
  | .getchar _ | .yield _ | .timer .. => False
  | _ => True

namespace Kernel

def addressSpaceOf (kernel : Kernel) (thread : ThreadId) : Option Word :=
  (kernel.threads thread).owner.map fun process => (kernel.processes process).addressSpaceRoot

structure SlotExact (addresses : FutexAddresses) (kernel : Kernel) (waiter : FutexWaiter) :
    Prop where
  waits : (kernel.threads waiter.thread).futexWaiting = true
  address : addresses waiter.thread = some waiter.userAddress
  root : kernel.addressSpaceOf waiter.thread = some waiter.addressSpaceRoot
  user : ¬KernelThread waiter.thread

/-- The marks of the threads and the active slots of the table agree. -/
structure FutexTable (addresses : FutexAddresses) (kernel : Kernel) : Prop where
  blocked : ∀ thread, (kernel.threads thread).futexWaiting = true →
    (kernel.threads thread).state = .blocked
  listed : ∀ thread, (kernel.threads thread).futexWaiting = true →
    ∃ i, (kernel.futexWaiters i).active = true ∧ (kernel.futexWaiters i).thread = thread
  slot : ∀ i, (kernel.futexWaiters i).active = true →
    SlotExact addresses kernel (kernel.futexWaiters i)
  unique : ∀ i j, (kernel.futexWaiters i).active = true → (kernel.futexWaiters j).active = true →
    (kernel.futexWaiters i).thread = (kernel.futexWaiters j).thread → i = j

/-- The thread that waits for a key does not wait on a futex, and it is blocked
or has ended. -/
def InputParked (kernel : Kernel) : Prop :=
  ∀ thread, kernel.inputWaiter = some thread → (kernel.threads thread).futexWaiting = false ∧
    ((kernel.threads thread).state = .blocked ∨ (kernel.threads thread).state = .zombie)

/-- No process waits for a child or has one to reap, and no context of a `wait4`
is stored. -/
structure Waitless (kernel : Kernel) : Prop where
  active : ∀ process, (kernel.processes process).waitActive = false
  pending : ∀ process, (kernel.processes process).pendingReapPid = 0
  context : ∀ thread, (kernel.threads thread).savedContext ≠ some .wait4

/-! ## Changes of other things -/

/-- No mark changes, and a thread that is blocked or has ended stays so; the
threads in `free` may change their state if they do not wait. -/
def Undisturbed (free : ThreadId → Prop) (before after : Kernel) : Prop :=
  ∀ thread, (after.threads thread).futexWaiting = (before.threads thread).futexWaiting ∧
    ((after.threads thread).state = (before.threads thread).state ∨
      ((before.threads thread).state ≠ .blocked ∧ (before.threads thread).state ≠ .zombie) ∨
      free thread ∧ (before.threads thread).futexWaiting = false)

namespace Undisturbed

variable {kernel after : Kernel} {free : ThreadId → Prop}

theorem of_threads (hthreads : after.threads = kernel.threads) : Undisturbed free kernel after := by
  intro thread
  rw [hthreads]
  exact ⟨rfl, .inl rfl⟩

theorem setThread (hthreads : after.threads = Function.update kernel.threads thread slot)
    (hwaiting : slot.futexWaiting = (kernel.threads thread).futexWaiting)
    (hstate : slot.state = (kernel.threads thread).state ∨
      ((kernel.threads thread).state ≠ .blocked ∧ (kernel.threads thread).state ≠ .zombie) ∨
      free thread ∧ (kernel.threads thread).futexWaiting = false) :
    Undisturbed free kernel after := by
  intro other
  rw [hthreads, Function.update_apply]
  split
  next heq =>
    subst heq
    exact ⟨hwaiting, hstate⟩
  · exact ⟨rfl, .inl rfl⟩

end Undisturbed

variable {kernel after before : Kernel} {addresses : FutexAddresses} {next : ThreadId}

theorem InputParked.of_undisturbed {free : ThreadId → Prop}
    (h : kernel.InputParked) (hkept : Undisturbed free kernel after)
    (hfree : ∀ thread, kernel.inputWaiter = some thread → ¬free thread)
    (hinput : after.inputWaiter = kernel.inputWaiter ∨ after.inputWaiter = none) :
    after.InputParked := by
  intro thread hthread
  have hbefore : kernel.inputWaiter = some thread := by
    rcases hinput with hsame | hnone
    · exact hsame.symm.trans hthread
    · rw [hnone] at hthread
      cases hthread
  obtain ⟨hwaiting, hstate⟩ := h thread hbefore
  obtain ⟨hmark, hkeeps⟩ := hkept thread
  refine ⟨hmark.trans hwaiting, ?_⟩
  rcases hkeeps with hsame | ⟨hblocked, hzombie⟩ | ⟨hexempt, -⟩
  · rw [hsame]
    exact hstate
  · exact absurd hstate (not_or.mpr ⟨hblocked, hzombie⟩)
  · exact absurd hexempt (hfree thread hbefore)

namespace FutexTable

variable {addresses : FutexAddresses} {kernel after : Kernel} {event : Event}

theorem of_undisturbed {free : ThreadId → Prop} (h : FutexTable addresses kernel)
    (hkept : Undisturbed free kernel after) (hwaiters : after.futexWaiters = kernel.futexWaiters)
    (hroot : ∀ thread, (kernel.threads thread).futexWaiting = true →
      after.addressSpaceOf thread = kernel.addressSpaceOf thread) :
    FutexTable addresses after := by
  refine ⟨?_, ?_, ?_, ?_⟩
  · intro thread hwaiting
    obtain ⟨hmark, hstate⟩ := hkept thread
    rw [hmark] at hwaiting
    have hblocked := h.blocked thread hwaiting
    rcases hstate with hsame | ⟨hnot, -⟩ | ⟨-, hnot⟩
    · rw [hsame, hblocked]
    · exact absurd hblocked hnot
    · rw [hwaiting] at hnot
      cases hnot
  · intro thread hwaiting
    rw [hwaiters]
    exact h.listed thread ((hkept thread).1.symm.trans hwaiting)
  · intro i hactive
    rw [hwaiters] at hactive ⊢
    obtain ⟨hwaits, haddress, hspace, huser⟩ := h.slot i hactive
    exact ⟨(hkept _).1.trans hwaits, haddress, (hroot _ hwaits).trans hspace, huser⟩
  · rw [hwaiters]
    exact h.unique

theorem not_waiting (h : FutexTable addresses kernel)
    (hstate : (kernel.threads thread).state ≠ .blocked) :
    (kernel.threads thread).futexWaiting = false := by
  by_contra hwaiting
  exact hstate (h.blocked thread (by simpa using hwaiting))

theorem owner (h : FutexTable addresses kernel) (hgroups : kernel.GroupsCounted)
    (hwaiting : (kernel.threads thread).futexWaiting = true) :
    ∃ process, process ≠ kernelProcess ∧ (kernel.threads thread).owner = some process ∧
      (kernel.processes process).alive = true := by
  obtain ⟨i, hactive, rfl⟩ := h.listed thread hwaiting
  refine hgroups.member _ (h.slot i hactive).user ?_
  rw [h.blocked _ hwaiting]
  rfl

end FutexTable

theorem addressSpaceOf_congr (howner : (after.threads thread).owner = (kernel.threads thread).owner)
    (hroot : ∀ process, (kernel.threads thread).owner = some process →
      (after.processes process).addressSpaceRoot = (kernel.processes process).addressSpaceRoot) :
    after.addressSpaceOf thread = kernel.addressSpaceOf thread := by
  unfold addressSpaceOf
  rw [howner]
  cases hprocess : (kernel.threads thread).owner with
  | none => rfl
  | some process => exact congrArg some (hroot process hprocess)

theorem SchedStep.addressSpaceOf (h : SchedStep before after)
    (thread : ThreadId) : after.addressSpaceOf thread = before.addressSpaceOf thread :=
  addressSpaceOf_congr (h.owner thread) fun process _ =>
    h.processField (fun slot => slot.addressSpaceRoot) (fun _ => rfl) process

/-! ## Completions -/

theorem FutexStep.endStep (h : FutexStep before after) : EndStep (fun _ => False) before after :=
  ⟨h.rest, fun _ hends => hends.elim, fun thread _ => h.settled thread⟩

namespace FutexTable

variable {addresses : FutexAddresses} {kernel after : Kernel} {event : Event}

variable {ends : ThreadId → Prop}

theorem settles (h : FutexTable addresses kernel)
    (hended : EndStep ends kernel after) (thread : ThreadId) :
    (¬ends thread ∧ after.threads thread = kernel.threads thread ∧
        SlotsKept kernel.futexWaiters after.futexWaiters thread) ∨
      (after.threads thread).futexWaiting = false ∧
        ∀ i, (kernel.futexWaiters i).thread = thread → (after.futexWaiters i).active = false := by
  by_cases hends : ends thread
  · obtain ⟨slot, hslot, hafter, hfree⟩ := hended.endedSettled thread hends
    refine .inr ⟨?_, hfree⟩
    rw [hafter]
    rcases hslot with ⟨rfl, hkept⟩ | ⟨result, rfl, -⟩
    · by_contra hwaiting
      have hmarked : (kernel.threads thread).futexWaiting = true := by
        simpa [ThreadSlot.ended] using hwaiting
      obtain ⟨i, hactive, hi⟩ := h.listed thread hmarked
      have hinactive := hfree i hi
      rw [hkept i hi, hactive] at hinactive
      cases hinactive
    · rfl
  · rcases hended.keptSettled thread hends with ⟨hsame, hkept⟩ | ⟨result, hresult, hfreed⟩
    · exact .inl ⟨hends, hsame, hkept⟩
    · refine .inr ⟨by rw [hresult]; rfl, fun i hi => ?_⟩
      rw [hfreed.slot i hi]

theorem afterEnded (h : FutexTable addresses kernel)
    (hended : EndStep ends kernel after) : FutexTable addresses after := by
  -- an active slot was active before, and its thread is as it was
  have hslot : ∀ i, (after.futexWaiters i).active = true →
      after.futexWaiters i = kernel.futexWaiters i ∧
        after.threads (kernel.futexWaiters i).thread =
          kernel.threads (kernel.futexWaiters i).thread := by
    intro i hactive
    rcases h.settles hended (kernel.futexWaiters i).thread with ⟨-, hsame, hkept⟩ | ⟨-, hfree⟩
    · exact ⟨hkept i rfl, hsame⟩
    · rw [hfree i rfl] at hactive
      cases hactive
  have hthread : ∀ thread, (after.threads thread).futexWaiting = true →
      after.threads thread = kernel.threads thread ∧
        SlotsKept kernel.futexWaiters after.futexWaiters thread := by
    intro thread hwaiting
    rcases h.settles hended thread with ⟨-, hkept⟩ | ⟨hnot, -⟩
    · exact hkept
    · rw [hwaiting] at hnot
      cases hnot
  refine ⟨?_, ?_, ?_, ?_⟩
  · intro thread hwaiting
    have hsame := (hthread thread hwaiting).1
    rw [hsame] at hwaiting ⊢
    exact h.blocked thread hwaiting
  · intro thread hwaiting
    obtain ⟨hsame, hkept⟩ := hthread thread hwaiting
    rw [hsame] at hwaiting
    obtain ⟨i, hactive, hi⟩ := h.listed thread hwaiting
    exact ⟨i, by rw [hkept i hi]; exact hactive, hkept.named hi⟩
  · intro i hactive
    obtain ⟨hsame, hrecord⟩ := hslot i hactive
    rw [hsame] at hactive ⊢
    obtain ⟨hwaits, haddress, hspace, huser⟩ := h.slot i hactive
    refine ⟨by rw [hrecord]; exact hwaits, haddress, ?_, huser⟩
    rw [← hspace]
    exact addressSpaceOf_congr (hended.owner _) fun process _ => by rw [hended.processes]
  · intro i j hi hj hnames
    have hsamei := (hslot i hi).1
    have hsamej := (hslot j hj).1
    rw [hsamei] at hi hnames
    rw [hsamej] at hj hnames
    exact h.unique i j hi hj hnames

theorem afterFutex (h : FutexTable addresses kernel) (hstep : FutexStep kernel after) :
    FutexTable addresses after :=
  h.afterEnded hstep.endStep

end FutexTable

theorem InputParked.afterEnded
    {ends : ThreadId → Prop} (h : kernel.InputParked) (htable : FutexTable addresses kernel)
    (hended : EndStep ends kernel after) : after.InputParked := by
  intro thread hthread
  have hbefore : kernel.inputWaiter = some thread := by
    rw [hended.rest] at hthread
    exact hthread
  obtain ⟨hwaiting, hstate⟩ := h thread hbefore
  by_cases hends : ends thread
  · refine ⟨?_, .inr (hended.zombie hends)⟩
    rcases htable.settles hended thread with ⟨hnot, -⟩ | ⟨hmark, -⟩
    · exact absurd hends hnot
    · exact hmark
  · rcases hended.keptSettled thread hends with ⟨hsame, -⟩ | ⟨result, -, hfreed⟩
    · rw [hsame]
      exact ⟨hwaiting, hstate⟩
    · obtain ⟨i, hactive, rfl⟩ := hfreed.waited
      rw [(htable.slot i hactive).waits] at hwaiting
      cases hwaiting

/-! ## Elementary changes -/

/-- What the changes of an event keep; the thread that waits for a key is not
the current one. -/
structure FutexKept (addresses : FutexAddresses) (kernel : Kernel) : Prop where
  table : FutexTable addresses kernel
  waitless : kernel.Waitless
  input : kernel.InputParked
  apart : kernel.inputWaiter ≠ some kernel.current
  groups : kernel.GroupsCounted

namespace Waitless

variable {kernel after : Kernel}

variable (h : kernel.Waitless)

include h

theorem of_fields (hprocess : ∀ process,
      (after.processes process).waitActive = (kernel.processes process).waitActive ∧
        (after.processes process).pendingReapPid = (kernel.processes process).pendingReapPid)
    (hthread : ∀ thread,
      (after.threads thread).savedContext = (kernel.threads thread).savedContext) :
    after.Waitless where
  active process := (hprocess process).1.trans (h.active process)
  pending process := (hprocess process).2.trans (h.pending process)
  context thread := by
    rw [hthread]
    exact h.context thread

theorem of_threads (hprocesses : after.processes = kernel.processes) (hthread : ∀ thread,
      (after.threads thread).savedContext = (kernel.threads thread).savedContext) :
    after.Waitless :=
  h.of_fields (fun process => by rw [hprocesses]; exact ⟨rfl, rfl⟩) hthread

theorem setThread (hprocesses : after.processes = kernel.processes)
    (hthreads : after.threads = Function.update kernel.threads thread slot)
    (hslot : slot.savedContext ≠ some .wait4) : after.Waitless where
  active := by
    rw [hprocesses]
    exact h.active
  pending := by
    rw [hprocesses]
    exact h.pending
  context other := by
    rw [hthreads, Function.update_apply]
    split
    · exact hslot
    · exact h.context other

theorem setProcess {slot : ProcessSlot}
    (hprocesses : after.processes = Function.update kernel.processes process slot)
    (hactive : slot.waitActive = false) (hpending : slot.pendingReapPid = 0) (hthread : ∀ thread,
      (after.threads thread).savedContext = (kernel.threads thread).savedContext) :
    after.Waitless := by
  refine ⟨?_, ?_, ?_⟩
  · intro other
    rw [hprocesses, Function.update_apply]
    split
    · exact hactive
    · exact h.active other
  · intro other
    rw [hprocesses, Function.update_apply]
    split
    · exact hpending
    · exact h.pending other
  · intro thread
    rw [hthread]
    exact h.context thread

theorem reported (answers : Answers) (child : ProcId) :
    wakeParentWaiter answers kernel child = kernel := by
  rcases wakeParentWaiter_cases answers kernel child with hsame | ⟨parent, _, _, hreports, -⟩
  · exact hsame
  · have hactive := hreports.waiting.2.1
    rw [h.active parent] at hactive
    cases hactive

theorem not_reaps {event : Event} (hsteady : event.Steady) :
    ¬Reaps event kernel := by
  rintro (⟨user, answers, target, status, options, rfl, hcall⟩ | ⟨answers, rfl⟩ |
    ⟨parent, -, hpending⟩)
  · exact hsteady.1 _ _ _ hcall
  · exact hsteady.elim
  · exact hpending (h.pending parent)

end Waitless

namespace FutexKept

variable {addresses : FutexAddresses} {kernel after : Kernel} {event : Event}

variable (h : FutexKept addresses kernel)

include h

theorem of_undisturbed (hkept : Undisturbed (fun thread => thread = kernel.current) kernel after)
    (hwaiters : after.futexWaiters = kernel.futexWaiters)
    (hroot : ∀ thread, (kernel.threads thread).futexWaiting = true →
      after.addressSpaceOf thread = kernel.addressSpaceOf thread)
    (hinput : after.inputWaiter = kernel.inputWaiter ∨ after.inputWaiter = none)
    (hcurrent : after.current = kernel.current) (hwaitless : after.Waitless)
    (hgroups : after.GroupsCounted) : FutexKept addresses after where
  table := h.table.of_undisturbed hkept hwaiters hroot
  waitless := hwaitless
  input := by
    refine h.input.of_undisturbed hkept ?_ hinput
    rintro thread hthread rfl
    exact h.apart hthread
  apart := by
    rw [hcurrent]
    rcases hinput with hsame | hnone
    · rw [hsame]
      exact h.apart
    · rw [hnone]
      exact (Option.some_ne_none _).symm
  groups := hgroups

theorem setRunning (hmove : Move event kernel (kernel.setThread kernel.current slot))
    (hwaiting : slot.futexWaiting = kernel.running.futexWaiting)
    (hstate : slot.state = kernel.running.state ∨ kernel.running.futexWaiting = false)
    (hcontext : slot.savedContext = kernel.running.savedContext) :
    FutexKept addresses (kernel.setThread kernel.current slot) := by
  refine h.of_undisturbed (.setThread rfl hwaiting ?_) rfl (fun thread _ =>
    hmove.sched.addressSpaceOf thread) (.inl rfl) rfl (h.waitless.setThread rfl rfl ?_)
    (h.groups.afterChange (.moved hmove))
  · rcases hstate with hsame | hnot
    · exact .inl hsame
    · exact .inr (.inr ⟨rfl, hnot⟩)
  · rw [hcontext]
    exact h.waitless.context kernel.current

variable {ends : ThreadId → Prop}

theorem afterEnded (hended : EndStep ends kernel ended) (hthreads : after.threads = ended.threads)
    (hfields : after.futexWaiters = ended.futexWaiters ∧
      after.inputWaiter = ended.inputWaiter ∧ after.current = ended.current)
    (hroot : ∀ thread, (ended.threads thread).futexWaiting = true →
      after.addressSpaceOf thread = ended.addressSpaceOf thread)
    (hwaitless : after.Waitless) (hgroups : after.GroupsCounted) :
    FutexKept addresses after := by
  have hkept : Undisturbed (fun _ => False) ended after := .of_threads hthreads
  refine ⟨(h.table.afterEnded hended).of_undisturbed hkept hfields.1 hroot, hwaitless, ?_, ?_,
    hgroups⟩
  · exact (h.input.afterEnded h.table hended).of_undisturbed hkept (fun _ _ => id)
      (.inl hfields.2.1)
  · rw [hfields.2.1, hfields.2.2, hended.rest]
    exact h.apart

theorem waitless_of_ended (hended : EndStep ends kernel ended) : ended.Waitless :=
  h.waitless.of_threads hended.processes
    (hended.field (fun slot => slot.savedContext) (fun _ _ => rfl) fun _ => rfl)

theorem afterMove (hsteady : event.Steady)
    (hmove : Move event kernel after) : FutexKept addresses after := by
  have hgroups := h.groups.afterChange (.moved hmove)
  have hroot := hmove.sched.addressSpaceOf
  have hmoved := hmove
  cases hmove with
  | outside hthreads hprocesses hcurrent _ _ hwaiters hinput =>
    exact h.of_undisturbed (.of_threads hthreads) hwaiters (fun thread _ => hroot thread) hinput
      hcurrent (h.waitless.of_threads hprocesses fun thread => by rw [hthreads]) hgroups
  | futex hstep =>
    exact h.afterEnded hstep.endStep rfl ⟨rfl, rfl, rfl⟩ (fun _ _ => rfl)
      (h.waitless_of_ended hstep.endStep) hgroups
  | reported answers =>
    rw [h.waitless.reported]
    exact h
  | reapTaken =>
    refine h.of_undisturbed (.of_threads rfl) rfl (fun thread _ => hroot thread) (.inl rfl) rfl
      ?_ hgroups
    exact h.waitless.setProcess rfl (h.waitless.active _) rfl fun _ => rfl
  | entered => exact h.setRunning hmoved rfl (.inl rfl) rfl
  | interrupted _ _ hevent =>
    obtain ⟨user, answers, rfl⟩ := hevent
    exact hsteady.elim
  | waited hevent hcall =>
    subst hevent
    exact absurd hcall (hsteady.1 _ _ _)
  | waitEnded hevent =>
    obtain ⟨answers, rfl⟩ := hevent
    exact hsteady.elim
  | futexBlocked hevent hcall =>
    subst hevent
    exact absurd hcall (hsteady.2 _ _ _ _)
  | futexEnded waiting result _ hwaiting hfree =>
    refine h.setRunning hmoved hwaiting (.inr ?_) rfl
    by_contra hmarked
    rw [Bool.not_eq_false] at hmarked
    obtain ⟨i, hactive, hi⟩ := h.table.listed kernel.current hmarked
    exact hfree (hwaiting.trans hmarked) i hactive hi
  | @keyed _ thread hblocked hwaiter =>
    have hnot := (h.input thread hwaiter).1
    have hkept : Undisturbed (fun other => other = thread) kernel
        { kernel.setThread thread { kernel.threads thread with state := .ready } with
          inputWaiter := none } :=
      .setThread rfl rfl (.inr (.inr ⟨rfl, hnot⟩))
    exact ⟨h.table.of_undisturbed hkept rfl fun other _ => hroot other,
      h.waitless.setThread rfl rfl (h.waitless.context thread), (fun _ hnone => nomatch hnone),
      (Option.some_ne_none _).symm, hgroups⟩
  | terminalBlocked hevent =>
    subst hevent
    exact hsteady.elim
  | terminalResumed | framed => exact h.setRunning hmoved rfl (.inl rfl) rfl

theorem addressSpaceOf_of_process
    (hprocesses : after.processes = Function.update kernel.processes process record)
    (hrecord : (kernel.processes process).pid = 0 ∨
      record.addressSpaceRoot = (kernel.processes process).addressSpaceRoot)
    (hwaiting : (kernel.threads thread).futexWaiting = true)
    (hthread : (after.threads thread).owner = (kernel.threads thread).owner) :
    after.addressSpaceOf thread = kernel.addressSpaceOf thread := by
  obtain ⟨owner, -, howner, halive⟩ := h.table.owner h.groups hwaiting
  refine addressSpaceOf_congr hthread ?_
  intro holder hholder
  rw [howner, Option.some.injEq] at hholder
  subst hholder
  rw [hprocesses, Function.update_apply]
  split
  next heq =>
    subst heq
    exact hrecord.resolve_left (h.groups.used owner halive)
  · rfl

theorem afterCreated (hthreads : after.threads = Function.update kernel.threads thread slot)
    (hprocesses : after.processes = Function.update kernel.processes process record)
    (hfields : after.futexWaiters = kernel.futexWaiters ∧
      after.inputWaiter = kernel.inputWaiter ∧ after.current = kernel.current)
    (hunused : (kernel.threads thread).state = .unused)
    (hslot : slot.futexWaiting = false ∧ slot.savedContext = none)
    (hrecord : (kernel.processes process).pid = 0 ∨
      record.addressSpaceRoot = (kernel.processes process).addressSpaceRoot)
    (hwait : record.waitActive = false ∧ record.pendingReapPid = 0)
    (hgroups : after.GroupsCounted) : FutexKept addresses after := by
  have hnot : (kernel.threads thread).futexWaiting = false :=
    h.table.not_waiting (by rw [hunused]; decide)
  have hcreated : (kernel.setThread thread slot).Waitless :=
    h.waitless.setThread rfl rfl (by rw [hslot.2]; exact (Option.some_ne_none _).symm)
  refine h.of_undisturbed (.setThread hthreads (hslot.1.trans hnot.symm) (.inr (.inl ?_)))
    hfields.1 ?_ (.inl hfields.2.1) hfields.2.2 ?_ hgroups
  · rw [hunused]
    decide
  · intro other hwaiting
    refine h.addressSpaceOf_of_process hprocesses hrecord hwaiting ?_
    rw [hthreads, Function.update_of_ne]
    rintro rfl
    rw [hwaiting] at hnot
    cases hnot
  · refine hcreated.setProcess hprocesses hwait.1 hwait.2 ?_
    intro other
    rw [hthreads]
    rfl

theorem afterPersonal
    (hpersonal : PersonalChange event kernel after) : FutexKept addresses after := by
  have hgroups := h.groups.afterChange (.personal hpersonal)
  have hview := hpersonal.field
    (fun slot => (slot.state, slot.futexWaiting, slot.owner, slot.savedContext)) fun _ => rfl
  simp only [Prod.mk.injEq] at hview
  obtain ⟨changed, slot, rfl, -⟩ := hpersonal.setThread
  refine h.of_undisturbed (fun thread => ⟨(hview thread).2.1, .inl (hview thread).1⟩) rfl ?_
    (.inl rfl) rfl (h.waitless.of_threads rfl fun thread => (hview thread).2.2.2) hgroups
  intro thread _
  exact addressSpaceOf_congr (hview thread).2.2.1 fun _ _ => rfl

/-- The process of a thread loses its address space only when the thread ends
with it. -/
theorem addressSpaceOf_of_ended
    (hended : EndStep ends kernel ended) (hprocess : kernel.processCurrent = some process)
    (hends : kernel.EndsProcess process ends)
    (hwaiting : (ended.threads thread).futexWaiting = true) :
    (ended.setProcess process record).addressSpaceOf thread = ended.addressSpaceOf thread := by
  have hkept : ¬ends thread ∧ ended.threads thread = kernel.threads thread := by
    rcases h.table.settles hended thread with ⟨hnot, hsame, -⟩ | ⟨hnot, -⟩
    · exact ⟨hnot, hsame⟩
    · rw [hwaiting] at hnot
      cases hnot
  rw [hkept.2] at hwaiting
  have hblocked := h.table.blocked thread hwaiting
  obtain ⟨owner, hkernel, howner, halive⟩ := h.table.owner h.groups hwaiting
  -- a waiting thread of the process would end
  have hother : owner ≠ process := by
    rintro rfl
    refine hkept.1 ?_
    rcases hends with hall | ⟨honly, hcount, hlive⟩
    · refine (hall thread).mpr ⟨?_, howner, by rw [hblocked]; decide⟩
      rintro rfl
      exact h.groups.owner_of_kernelThread howner hkernel (.inl rfl)
    · rw [honly]
      have hcard := h.groups.count owner hkernel halive
      refine Finset.card_le_one.mp (hcard ▸ hcount) thread ?_ kernel.current ?_
      · rw [mem_liveThreads]
        exact ⟨howner, by rw [hblocked]; rfl⟩
      · rw [mem_liveThreads]
        exact ⟨hprocess, hlive⟩
  refine addressSpaceOf_congr rfl ?_
  intro holder hholder
  rw [hkept.2, howner, Option.some.injEq] at hholder
  subst hholder
  rw [setProcess_processes, if_neg hother]

theorem afterChange (hsteady : event.Steady)
    (hchange : Change event kernel after) : FutexKept addresses after := by
  have hgroups := h.groups.afterChange hchange
  cases hchange with
  | moved hmove => exact h.afterMove hsteady hmove
  | personal hpersonal => exact h.afterPersonal hpersonal
  | action =>
    refine h.of_undisturbed (.of_threads rfl) rfl ?_ (.inl rfl) rfl
      (h.waitless.setProcess rfl (h.waitless.active _) (h.waitless.pending _) fun _ => rfl)
      hgroups
    intro thread hwaiting
    refine h.addressSpaceOf_of_process rfl (.inr ?_) hwaiting rfl
    rfl
  | forked root _ _ _ _ _ hchild hthread =>
    exact h.afterCreated rfl rfl ⟨rfl, rfl, rfl⟩ hthread.2 ⟨rfl, rfl⟩ (.inl hchild.2)
      ⟨rfl, rfl⟩ hgroups
  | cloned _ _ _ _ _ hthread =>
    refine h.afterCreated rfl rfl ⟨rfl, rfl, rfl⟩ hthread.2 ⟨rfl, rfl⟩ (.inr ?_) ⟨?_, ?_⟩ hgroups
    · rfl
    · exact h.waitless.active _
    · exact h.waitless.pending _
  | clearedThread hthread =>
    exact h.afterCreated rfl (Function.update_eq_self kernelProcess _).symm ⟨rfl, rfl, rfl⟩
      hthread.2 ⟨rfl, rfl⟩ (.inr rfl) ⟨h.waitless.active _, h.waitless.pending _⟩ hgroups
  | clearedProcess hprocess =>
    exact h.of_undisturbed (.of_threads rfl) rfl
      (fun thread hwaiting => h.addressSpaceOf_of_process rfl (.inl hprocess.2) hwaiting rfl)
      (.inl rfl) rfl (h.waitless.setProcess rfl rfl rfl fun _ => rfl) hgroups
  | threadEnded _ _ _ hended =>
    refine h.afterEnded hended rfl ⟨rfl, rfl, rfl⟩ ?_ ?_ hgroups
    · intro thread _
      refine addressSpaceOf_congr rfl fun other _ => ?_
      rw [setProcess_processes, hended.processes]
      split
      next heq => rw [heq]
      · rfl
    · refine (h.waitless_of_ended hended).setProcess rfl ?_ ?_ fun _ => rfl
      · exact h.waitless.active _
      · exact h.waitless.pending _
  | processEnded _ _ hprocess _ hended hends =>
    refine h.afterEnded hended rfl ⟨rfl, rfl, rfl⟩
      (fun thread hwaiting => h.addressSpaceOf_of_ended hended hprocess hends hwaiting) ?_ hgroups
    refine (h.waitless_of_ended hended).setProcess rfl ?_ ?_ fun _ => rfl
    · exact h.waitless.active _
    · exact h.waitless.pending _
  | reaped _ _ _ hreaps => exact absurd hreaps (h.waitless.not_reaps hsteady)

theorem afterChanges (hsteady : event.Steady)
    (hchanges : Changes event kernel after) : FutexKept addresses after := by
  induction hchanges with
  | refl => exact h
  | tail _ hchange ih => exact ih.afterChange hsteady hchange

end FutexKept

theorem GroupsCounted.afterTransitions {event : Event}
    (h : kernel.GroupsCounted) (htransitions : Transitions event kernel after) :
    after.GroupsCounted := by
  induction htransitions with
  | refl => exact h
  | tail _ htransition ih => exact ih.afterTransition htransition

/-! ## Changes of the current thread -/

/-- What a change of the current thread keeps of every thread. -/
def ThreadSlot.Kept (before after : ThreadSlot) : Prop :=
  after.futexWaiting = before.futexWaiting ∧ after.owner = before.owner ∧
    (after.state = before.state ∨ before.state ≠ .blocked ∧ before.state ≠ .zombie)

theorem FutexKept.of_switched (htable : FutexTable addresses kernel) (hinput : kernel.InputParked)
    (hslot : ∀ thread, ThreadSlot.Kept (kernel.threads thread) (after.threads thread))
    (htables : after.tables = kernel.tables)
    (hwaitless : after.Waitless) (hgroups : after.GroupsCounted)
    (hrunning : after.running.state = .running) : FutexKept addresses after := by
  simp only [tables, Prod.mk.injEq] at htables
  have hkept : Undisturbed (fun _ => False) kernel after := fun thread =>
    ⟨(hslot thread).1, (hslot thread).2.2.imp_right .inl⟩
  have hparked : after.InputParked :=
    hinput.of_undisturbed hkept (fun _ _ => id) (.inl htables.2.1)
  refine ⟨htable.of_undisturbed hkept htables.1 ?_, hwaitless, hparked, ?_, hgroups⟩
  · intro thread _
    exact addressSpaceOf_congr (hslot thread).2.1 fun process _ => by rw [htables.2.2]
  · intro hcurrent
    have hstate := (hparked after.current hcurrent).2
    rw [show (after.threads after.current).state = .running from hrunning] at hstate
    rcases hstate with hstate | hstate <;> cases hstate

theorem switchedTo_record (site : YieldSite)
    (hyields : kernel.YieldsTo next)
    (thread : ThreadId) :
    ThreadSlot.Kept (kernel.threads thread) ((kernel.switchedTo site next).threads thread) ∧
      (((kernel.switchedTo site next).threads thread).savedContext =
          (kernel.threads thread).savedContext ∨
        thread = kernel.current ∧
          ((kernel.switchedTo site next).threads thread).savedContext = some site) := by
  by_cases hleft : thread = kernel.current
  · subst hleft
    rw [switchedTo_left site hyields]
    refine ⟨⟨by simp [deactivate, running], by simp [deactivate, running], ?_⟩, ?_⟩
    · by_cases hstate : (kernel.threads kernel.current).state = .running
      · exact .inr (by rw [hstate]; decide)
      · exact .inl (by simp [deactivate, running, hstate])
    · dsimp only
      split
      · exact .inr ⟨rfl, rfl⟩
      · exact .inl rfl
  · by_cases hchosen : thread = next
    · subst hchosen
      obtain ⟨saved, kind, heq⟩ := switchedTo_running site hyields
      rw [running, switchedTo_current site hyields] at heq
      rw [heq]
      exact ⟨⟨rfl, rfl, .inr (by rw [(nextRunnable_some hyields.1).1]; decide)⟩, .inl rfl⟩
    · rw [switchedTo_other site hyields hleft hchosen]
      exact ⟨⟨rfl, rfl, .inl rfl⟩, .inl rfl⟩

theorem FutexKept.afterYielded (htable : FutexTable addresses kernel) (hwaitless : kernel.Waitless)
    (hinput : kernel.InputParked) (hgroups : kernel.GroupsCounted) (hsite : site ≠ .wait4)
    (hyields : kernel.YieldsTo next) :
    FutexKept addresses (kernel.switchedTo site next) := by
  have hrecord := switchedTo_record site hyields
  have htables := switchedTo_tables kernel site next
  have hprocesses := switchedTo_processes kernel site next
  have hswitched : Transitions .kernelTick kernel (kernel.switchedTo site next) :=
    switchedTo_transitions site hyields
  refine .of_switched htable hinput (fun thread => (hrecord thread).1) htables ⟨?_, ?_, ?_⟩
    (hgroups.afterTransitions hswitched) ?_
  · rw [hprocesses]
    exact hwaitless.active
  · rw [hprocesses]
    exact hwaitless.pending
  · intro thread
    rcases (hrecord thread).2 with hsame | ⟨-, hstored⟩
    · rw [hsame]
      exact hwaitless.context thread
    · rw [hstored]
      exact fun heq => hsite (Option.some.inj heq)
  · obtain ⟨saved, kind, heq⟩ := switchedTo_running site hyields
    rw [heq]

theorem FutexKept.afterPreempted (h : FutexKept addresses (kernel.preempted user))
    (hnext : kernel.preemptNext user = some next) :
    FutexKept addresses (kernel.preemptedTo user next).materializeFrame := by
  obtain ⟨hother, hcurrent, hslot⟩ := preemptedTo_running hnext
  have hready := (findNextRunnable_some hnext).1
  obtain ⟨saved, kind, hmaterialized⟩ := materializeFrame_running (kernel.preemptedTo user next)
  rw [hslot] at hmaterialized
  have htables := preemptedTo_tables kernel user next
  have hrecord : ∀ thread,
      ThreadSlot.Kept ((kernel.preempted user).threads thread)
          ((kernel.preemptedTo user next).materializeFrame.threads thread) ∧
        ((kernel.preemptedTo user next).materializeFrame.threads thread).savedContext =
          ((kernel.preempted user).threads thread).savedContext := by
    intro thread
    by_cases hchosen : thread = next
    · subst hchosen
      rw [running, materializeFrame_current, hcurrent] at hmaterialized
      rw [hmaterialized]
      exact ⟨⟨rfl, rfl, .inr (by rw [hready]; decide)⟩, rfl⟩
    · rw [materializeFrame_other (by rw [hcurrent]; exact hchosen), (preemptedTo_threads hnext).2.2,
        if_neg hchosen]
      split
      next hleft =>
        subst hleft
        refine ⟨⟨rfl, rfl, .inr ?_⟩, rfl⟩
        rw [show ((kernel.preempted user).threads (kernel.preempted user).current).state = .running
          from preempted_running kernel user]
        decide
      · exact ⟨⟨rfl, rfl, .inl rfl⟩, rfl⟩
  have hswitched : Transitions .kernelTick _ _ := preemptedTo_transitions hnext
  exact .of_switched h.table h.input (fun thread => (hrecord thread).1) htables
    (h.waitless.of_threads (congrArg (fun tables => tables.2.2) htables)
      fun thread => (hrecord thread).2)
    (h.groups.afterTransitions hswitched) (by rw [hmaterialized])

/-! ## Events -/

theorem FutexKept.afterTimer (h : FutexKept addresses kernel)
    (hrunning : kernel.running.state = .running) :
    FutexKept addresses (kernel.schedulerPreempt answers user) := by
  have hsteady : Event.kernelTick.Steady := trivial
  have hexpired := h.afterMove hsteady (.futex (futexExpireWaiters_step _))
  have hstate : kernel.futexExpireWaiters.running.state = .running :=
    (Stays.of_futex (futexExpireWaiters_step _)).state hrunning
  have hsaved : FutexKept addresses (kernel.preempted user) := by
    have hmove : Move (.timer user answers) _ _ :=
      .interrupted user (congrArg ThreadState.live hstate) ⟨user, answers, rfl⟩
    exact hexpired.setRunning hmove rfl (.inl hstate.symm) rfl
  cases hnext : kernel.preemptNext user with
  | none =>
    rw [schedulerPreempt_stays answers hnext]
    exact hsaved.afterMove hsteady (.clock _ _ _)
  | some chosen =>
    exact (hsaved.afterPreempted hnext).afterChanges hsteady
      (schedulerPreempt_changes hnext answers)

structure FutexSteady (addresses : FutexAddresses) (kernel : Kernel) : Prop where
  positioned : kernel.Positioned
  groups : kernel.GroupsCounted
  table : FutexTable addresses kernel
  waitless : kernel.Waitless
  input : kernel.InputParked
  apart : kernel.mode.plain = true → kernel.inputWaiter ≠ some kernel.current
  reading : kernel.mode.plain = false → kernel.running.futexWaiting = false
  mode : kernel.mode ≠ .yielding .wait4

namespace FutexSteady

variable {addresses : FutexAddresses} {kernel next : Kernel}

theorem kept (h : FutexSteady addresses kernel) (hmode : kernel.mode.plain = true) :
    FutexKept addresses kernel :=
  ⟨h.table, h.waitless, h.input, h.apart hmode, h.groups⟩

theorem of_kept (h : FutexKept addresses next) (hpositioned : next.Positioned)
    (hreading : next.mode.plain = false → next.running.state = .running)
    (hmode : next.mode ≠ .yielding .wait4) : FutexSteady addresses next where
  positioned := hpositioned
  groups := h.groups
  table := h.table
  waitless := h.waitless
  input := h.input
  apart _ := h.apart
  reading hread := h.table.not_waiting (by
    rw [show (next.threads next.current).state = .running from hreading hread]
    decide)
  mode := hmode

theorem of_placed (h : FutexKept addresses next) (hplaced : next.Placed) :
    FutexSteady addresses next := by
  have hmode := hplaced.plain
  refine .of_kept h hplaced.positioned ?_ ?_
  · intro hread
    rw [hmode] at hread
    cases hread
  · intro heq
    rw [heq] at hmode
    cases hmode

theorem of_reading (h : FutexKept addresses next) (hpositioned : next.Positioned)
    (hmode : next.mode = .terminal) (hrunning : next.running.state = .running) :
    FutexSteady addresses next :=
  .of_kept h hpositioned (fun _ => hrunning) (by rw [hmode]; decide)

variable (h : FutexSteady addresses kernel)

include h

theorem afterRetry (hmode : kernel.mode = .yielding .terminal)
    (hpositioned : (returnFrom answers { kernel with reschedulePending := false }
      .terminal).Positioned) :
    FutexSteady addresses (returnFrom answers { kernel with reschedulePending := false }
      .terminal) := by
  have hkept : Undisturbed (fun _ => False) kernel
      (returnFrom answers { kernel with reschedulePending := false } .terminal) :=
    .setThread rfl rfl (.inl rfl)
  have hresumed : Move .kernelTick kernel (kernel.setThread kernel.current
      { kernel.running with privilegeRing := kernel.running.userRing }) := .terminalResumed kernel
  have hchanges : Changes .kernelTick kernel
      (returnFrom answers { kernel with reschedulePending := false } .terminal) :=
    (Changes.move hresumed).tail (.moved (.outside rfl rfl rfl rfl rfl rfl (.inl rfl)))
  refine ⟨hpositioned, h.groups.afterChanges hchanges,
    h.table.of_undisturbed hkept rfl fun thread _ => hresumed.sched.addressSpaceOf thread,
    h.waitless.setThread rfl rfl (h.waitless.context kernel.current),
    h.input.of_undisturbed hkept (fun _ _ => id) (.inl rfl), fun hplain => ?_, fun _ => ?_,
    fun heq => ?_⟩
  · cases hplain
  · exact (hkept kernel.current).1.trans (h.reading (by rw [hmode]; rfl))
  · cases heq

theorem afterYield (hmode : kernel.mode = .yielding site) :
    FutexSteady addresses (schedulerYield answers kernel site) := by
  have hsite : site ≠ .wait4 := by
    rintro rfl
    exact h.mode hmode
  have hsteady : Event.kernelTick.Steady := trivial
  have hpositioned : (schedulerYield answers kernel site).Positioned :=
    schedulerYield_positioned answers (h.positioned.at_mode hmode)
  by_cases hreturns : ∃ next, kernel.YieldsTo next
  swap
  · rw [schedulerYield_returns answers site hreturns] at hpositioned ⊢
    by_cases hterminal : site = .terminal
    · subst hterminal
      exact h.afterRetry hmode hpositioned
    · have hplain : kernel.mode.plain = true := by
        rw [hmode]
        cases site <;> first | rfl | exact absurd rfl hsite | exact absurd rfl hterminal
      have hpending : FutexKept addresses { kernel with reschedulePending := false } :=
        (h.kept hplain).afterMove hsteady (.outside rfl rfl rfl rfl rfl rfl (.inl rfl))
      exact .of_placed (hpending.afterChanges hsteady (returnFrom_changes answers _ site
        (fun heq => absurd heq hsite) (h.positioned.runningLive.yielding hmode)))
        (returnFrom_placed answers hterminal (.inr (h.positioned.at_mode hmode)))
  · obtain ⟨chosen, hyields⟩ := hreturns
    have hswitched := FutexKept.afterYielded h.table h.waitless h.input h.groups hsite hyields
    rw [schedulerYield_goesOn site hyields answers] at hpositioned ⊢
    have hgone : FutexKept addresses (goOn answers (kernel.switchedTo site chosen)
        (kernel.yieldContinuation chosen)) :=
      hswitched.afterChanges hsteady (goOn_changes site hyields answers _ fun heq =>
        absurd (yieldContinuation_context heq).2 (h.waitless.context chosen))
    generalize kernel.yieldContinuation chosen = continuation at hpositioned hgone ⊢
    obtain ⟨saved, kind, heq⟩ := switchedTo_running site hyields
    by_cases hterminal : continuation = .context (some .terminal)
    · subst hterminal
      exact .of_reading hgone hpositioned rfl (state_of_update rfl rfl (by rw [heq]))
    · exact .of_placed hgone (goOn_placed answers hterminal (by rw [heq]))

theorem afterGetchar {more : Bool} (hmode : kernel.mode = .terminal) :
    FutexSteady addresses (kernel.keyboardGetchar more) := by
  have hpositioned := keyboardGetchar_positioned more h.positioned hmode
  have hnot : kernel.running.futexWaiting = false := h.reading (by rw [hmode]; rfl)
  have hchanges : Changes (.getchar more) kernel (kernel.keyboardGetchar more) :=
    keyboardGetchar_changes rfl (h.positioned.runningLive (by rw [hmode]; rfl))
  have hgroups := h.groups.afterChanges hchanges
  unfold keyboardGetchar at hpositioned hgroups ⊢
  split at hpositioned
  next hqueued =>
    have hrunning : kernel.running.state = .running := by
      rcases h.positioned.at_mode hmode with hstate | ⟨-, hempty⟩
      · exact hstate
      · omega
    rw [if_pos hqueued] at hgroups ⊢
    have hkept : Undisturbed (fun _ => False) kernel
        { kernel with
          inputQueued := kernel.inputQueued - 1
          mode := if more then .terminal else .user } :=
      .of_threads rfl
    refine ⟨hpositioned, hgroups, h.table.of_undisturbed hkept rfl fun _ _ => rfl,
      h.waitless.of_threads rfl fun _ => rfl, h.input.of_undisturbed hkept (fun _ _ => id)
      (.inl rfl), fun _ hinput => ?_, fun _ => hnot, ?_⟩
    · have hstate := (h.input kernel.current hinput).2
      rw [show (kernel.threads kernel.current).state = .running from hrunning] at hstate
      rcases hstate with hstate | hstate <;> cases hstate
    · dsimp only
      split <;> exact fun heq => nomatch heq
  next hempty =>
  rw [if_neg hempty] at hgroups ⊢
  have hkept : Undisturbed (fun thread => thread = kernel.current) kernel kernel.terminalBlocked :=
    .setThread rfl rfl (.inr (.inr ⟨rfl, hnot⟩))
  refine ⟨hpositioned, hgroups, h.table.of_undisturbed hkept rfl fun thread _ => ?_,
    h.waitless.setThread rfl rfl (h.waitless.context kernel.current), ?_, fun hplain => ?_,
    fun _ => ?_, fun heq => ?_⟩
  · refine addressSpaceOf_congr ?_ fun _ _ => rfl
    dsimp only
    rw [setThread_threads]
    split
    next heq => rw [heq]; rfl
    · rfl
  · rintro thread ⟨⟩
    refine ⟨(hkept kernel.current).1.trans hnot, .inl ?_⟩
    simp
  · cases hplain
  · exact (hkept kernel.current).1.trans hnot
  · cases heq

theorem afterCall (hsteady : (Event.syscall user answers).Steady)
    (hexec : user.syscallFrame.syscall ≠ .execve)
    (hstep : kernel.step (.syscall user answers) = some next) : FutexSteady addresses next := by
  have hpositioned := step_positioned h.positioned hstep
  have hchanges : Changes (.syscall user answers) kernel next := by
    rcases step_syscall h.positioned hstep with hchanges | ⟨-, hcall, -⟩
    · exact hchanges
    · exact absurd hcall hexec
  simp only [step, Option.ite_none_right_eq_some, Option.some.injEq] at hstep
  obtain ⟨huser, hnext⟩ := hstep
  have hkept : FutexKept addresses next :=
    (h.kept (by rw [huser]; rfl)).afterChanges hsteady hchanges
  have hmode := (enterSyscall_fields kernel user.syscallFrame).2.trans huser
  have hdispatched := syscallDispatch_dispatched answers user (congrArg ThreadState.live
    ((enterSyscall_state kernel user.syscallFrame).trans (h.positioned.at_mode huser)))
  rw [hnext] at hdispatched
  cases hdispatched with
  | returned hstays =>
    refine .of_placed hkept ⟨hpositioned, ?_⟩
    rw [hstays.mode, hmode]
    rfl
  | slept => exact .of_placed hkept ⟨hpositioned, rfl⟩
  | reading =>
    exact .of_reading hkept hpositioned rfl
      ((enterSyscall_state kernel _).trans (h.positioned.at_mode huser))
  | yielded => exact .of_placed hkept ⟨hpositioned, rfl⟩
  | waited hcall => exact absurd hcall (hsteady.1 _ _ _)
  | futexBlocked hcall => exact absurd hcall (hsteady.2 _ _ _ _)
  | ended hended => exact .of_placed hkept (.of_ended hended)
  | execed hcall => exact absurd hcall hexec

end FutexSteady

theorem FutexTable.insert {after : Kernel}
    (h : FutexTable addresses kernel) {record : ThreadSlot} {slot : Fin 256}
    {waiter : FutexWaiter} {address : Word}
    (hthreads : after.threads = Function.update kernel.threads thread record)
    (hwaiters : after.futexWaiters = Function.update kernel.futexWaiters slot waiter)
    (hprocesses : after.processes = kernel.processes)
    (hnot : (kernel.threads thread).futexWaiting = false)
    (hfree : (kernel.futexWaiters slot).active = false)
    (hrecord : record.futexWaiting = true ∧ record.state = .blocked ∧
      record.owner = (kernel.threads thread).owner)
    (hwaiter : waiter.active = true ∧ waiter.thread = thread)
    (haddress : waiter.userAddress = address)
    (hroot : kernel.addressSpaceOf thread = some waiter.addressSpaceRoot)
    (huser : ¬KernelThread thread) :
    FutexTable (Function.update addresses thread (some address)) after := by
  -- the slots that were active stay as they are and name other threads
  have hothers : ∀ i, (kernel.futexWaiters i).active = true →
      i ≠ slot ∧ (kernel.futexWaiters i).thread ≠ thread := by
    intro i hactive
    refine ⟨?_, ?_⟩
    · rintro rfl
      rw [hactive] at hfree
      cases hfree
    · rintro rfl
      rw [(h.slot i hactive).waits] at hnot
      cases hnot
  have hslots : ∀ i, (after.futexWaiters i).active = true →
      (i = slot ∧ after.futexWaiters i = waiter) ∨
        (kernel.futexWaiters i).active = true ∧ after.futexWaiters i = kernel.futexWaiters i := by
    intro i
    rw [hwaiters, Function.update_apply]
    split
    next heq => exact fun _ => .inl ⟨heq, rfl⟩
    · exact fun hactive => .inr ⟨hactive, rfl⟩
  have hspace : ∀ other, after.addressSpaceOf other = kernel.addressSpaceOf other := by
    intro other
    refine addressSpaceOf_congr ?_ fun process _ => by rw [hprocesses]
    rw [hthreads, Function.update_apply]
    split
    next heq =>
      rw [heq]
      exact hrecord.2.2
    · rfl
  refine ⟨?_, ?_, ?_, ?_⟩
  · intro other
    rw [hthreads, Function.update_apply]
    split
    · exact fun _ => hrecord.2.1
    · exact h.blocked other
  · intro other
    rw [hthreads, hwaiters, Function.update_apply]
    split
    next heq =>
      refine fun _ => ⟨slot, ?_⟩
      rw [Function.update_self, heq]
      exact hwaiter
    · intro hwaiting
      obtain ⟨i, hactive, hi⟩ := h.listed other hwaiting
      refine ⟨i, ?_⟩
      rw [Function.update_of_ne (hothers i hactive).1]
      exact ⟨hactive, hi⟩
  · intro i hactive
    rcases hslots i hactive with ⟨-, heq⟩ | ⟨hbefore, heq⟩
    · rw [heq]
      refine ⟨?_, ?_, ?_, ?_⟩ <;> rw [hwaiter.2]
      · rw [hthreads, Function.update_self]
        exact hrecord.1
      · rw [Function.update_self, haddress]
      · rw [hspace, hroot]
      · exact huser
    · obtain ⟨hwaits, hnoted, hspace', huser'⟩ := h.slot i hbefore
      have hne := (hothers i hbefore).2
      rw [heq]
      exact ⟨by rw [hthreads, Function.update_of_ne hne, hwaits],
        by rw [Function.update_of_ne hne, hnoted], by rw [hspace, hspace'], huser'⟩
  · intro i j hi hj hnames
    rcases hslots i hi with ⟨hslot, heq⟩ | ⟨hbefore, heq⟩ <;>
      rcases hslots j hj with ⟨hslot', heq'⟩ | ⟨hbefore', heq'⟩ <;> rw [heq, heq'] at hnames
    · exact hslot.trans hslot'.symm
    · exact absurd (hnames.symm.trans hwaiter.2) (hothers j hbefore').2
    · exact absurd (hnames.trans hwaiter.2) (hothers i hbefore).2
    · exact h.unique i j hbefore hbefore' hnames

theorem FutexKept.afterBlocked {blocked : Kernel}
    (h : FutexKept addresses kernel) (hrunning : kernel.running.state = .running)
    {userAddress userTimeout : Word} {expected : BitVec 32}
    (hwait : kernel.processFutexWait answers userAddress expected userTimeout = .ok blocked)
    (hgroups : blocked.GroupsCounted) :
    FutexKept (Function.update addresses kernel.current (some userAddress)) blocked := by
  obtain ⟨process, slot, timed, deadline, hprocess, hring, hfree, rfl⟩ :=
    processFutexWait_slot hwait
  have hnot : (kernel.threads kernel.current).futexWaiting = false :=
    h.table.not_waiting (by
      rw [show (kernel.threads kernel.current).state = .running from hrunning]
      decide)
  have huser : ¬KernelThread kernel.current := by
    intro hkernel
    have hzero := (h.groups.kernelThread kernel.current hkernel).2.2.1
    rw [show (kernel.threads kernel.current).privilegeRing = 3 from hring] at hzero
    cases hzero
  have hroot : kernel.addressSpaceOf kernel.current =
      some (kernel.processes process).addressSpaceRoot := by
    rw [addressSpaceOf, show (kernel.threads kernel.current).owner = some process from hprocess]
    rfl
  refine ⟨h.table.insert rfl rfl rfl hnot hfree ⟨rfl, rfl, rfl⟩ ⟨rfl, rfl⟩ rfl hroot huser,
    h.waitless.setThread rfl rfl (h.waitless.context kernel.current), ?_, h.apart, hgroups⟩
  intro thread hthread
  have hother : thread ≠ kernel.current := by
    rintro rfl
    exact h.apart hthread
  dsimp only
  rw [setThread_threads, if_neg hother]
  exact h.input thread hthread

namespace FutexSteady

variable {addresses : FutexAddresses} {kernel next : Kernel}

theorem afterFutexCall (h : FutexSteady addresses kernel)
    {userAddress operation userTimeout : Word} {value : BitVec 32}
    (hcall : user.syscallFrame.syscall = .futex userAddress operation value userTimeout)
    (hstep : kernel.step (.syscall user answers) = some next) :
    FutexSteady (noteAddress addresses kernel (.syscall user answers) next) next := by
  have hpositioned := step_positioned h.positioned hstep
  have hgroups : next.GroupsCounted := by
    rcases step_syscall h.positioned hstep with hchanges | ⟨-, hexec, -⟩
    · exact h.groups.afterChanges hchanges
    · rw [hcall] at hexec
      cases hexec
  simp only [step, Option.ite_none_right_eq_some, Option.some.injEq] at hstep
  obtain ⟨huser, hnext⟩ := hstep
  have hsteady : Event.kernelTick.Steady := trivial
  obtain ⟨hcurrent, hmode⟩ := enterSyscall_fields kernel user.syscallFrame
  have hentered : FutexKept addresses (kernel.enterSyscall user.syscallFrame) :=
    (h.kept (by rw [huser]; rfl)).afterChanges hsteady (enterSyscall_changes kernel _)
  have hrunning : (kernel.enterSyscall user.syscallFrame).running.state = .running :=
    (enterSyscall_state kernel _).trans (h.positioned.at_mode huser)
  -- a call that does not block completes waits at most
  have hreturns : FutexStep (kernel.enterSyscall user.syscallFrame) next →
      FutexSteady (noteAddress addresses kernel (.syscall user answers) next) next := by
    intro hfutex
    have hplain : next.mode = .user := hfutex.mode.trans (hmode.trans huser)
    have hnoted : noteAddress addresses kernel (.syscall user answers) next = addresses := by
      simp only [noteAddress, hcall, hplain]
    rw [hnoted]
    exact .of_placed (hentered.afterMove hsteady (.futex hfutex))
      ⟨hpositioned, congrArg Mode.plain hplain⟩
  rw [syscallDispatch, hcall] at hnext
  dsimp only [sysFutex] at hnext
  split at hnext
  · exact hreturns (by rw [← hnext]; exact .refl _)
  split at hnext
  · split at hnext
    · exact hreturns (by rw [← hnext]; exact .refl _)
    next blocked hblocked =>
    have hsame : blocked = next := hnext
    subst hsame
    have hkept := hentered.afterBlocked hrunning hblocked hgroups
    have hyields : blocked.mode = .yielding .futex := by
      obtain ⟨-, waiters, rfl⟩ := processFutexWait_ok hblocked
      rfl
    have hnoted : noteAddress addresses kernel (.syscall user answers) blocked =
        Function.update addresses kernel.current (some userAddress) := by
      simp only [noteAddress, hcall, hyields]
    rw [hcurrent, ← hnoted] at hkept
    exact .of_placed hkept ⟨hpositioned, congrArg Mode.plain hyields⟩
  · split at hnext
    · exact hreturns (by rw [← hnext]; exact processFutexWake_step _ _ _)
    · exact hreturns (by rw [← hnext]; exact .refl _)

theorem afterStep (h : FutexSteady addresses kernel) {event : Event}
    (hevent : event.waitsOrExecs = false) (hstep : kernel.step event = some next) :
    FutexSteady (noteAddress addresses kernel event next) next := by
  have hpositioned := step_positioned h.positioned hstep
  have hplain : ∀ {mode : Mode}, kernel.mode = mode → mode.plain = true →
      kernel.mode.plain = true := by
    rintro _ rfl hmode
    exact hmode
  cases step_stepped hstep with
  | @syscall user answers =>
    cases hcall : user.syscallFrame.syscall with
    | wait4 | execve => simp [Event.waitsOrExecs, hcall] at hevent
    | futex => exact h.afterFutexCall hcall hstep
    | _ =>
      have hnoted : ∀ next, noteAddress addresses kernel (.syscall user answers) next =
          addresses := by
        intro next
        simp only [noteAddress, hcall]
      rw [hnoted]
      refine h.afterCall ⟨?_, ?_⟩ ?_ hstep <;> simp [hcall]
  | @exception words vector answers hmode =>
    have hsteady : (Event.exception words vector answers).Steady := trivial
    exact .of_placed ((h.kept (hplain hmode rfl)).afterChanges hsteady
      (raiseException_changes answers kernel words (exceptionSignal_catchable vector)))
      (raiseException_placed answers words _ (h.positioned.at_mode hmode) hmode)
  | timer hmode =>
    have hsteady : Event.kernelTick.Steady := trivial
    have hticked : FutexKept addresses { kernel with timerTicks := kernel.timerTicks + 1 } :=
      (h.kept (hplain hmode rfl)).afterMove hsteady (.clock _ _ _)
    exact .of_placed (hticked.afterTimer (h.positioned.at_mode hmode))
      (schedulerPreempt_placed _ _ hmode)
  | kernelTick hmode =>
    have hsteady : Event.kernelTick.Steady := trivial
    have hidle : kernel.mode.plain = true := by
      rcases hmode with hmode | ⟨mask, hmode⟩ <;> exact hplain hmode rfl
    exact .of_placed ((h.kept hidle).afterChanges hsteady (kernelTick_changes kernel))
      (kernelTick_placed h.positioned hmode)
  | key hmode =>
    have hsteady : Event.key.Steady := trivial
    have hqueues : kernel.mode.plain = true := by
      rcases hmode with hmode | hmode | ⟨mask, hmode⟩ <;> exact hplain hmode rfl
    exact .of_placed ((h.kept hqueues).afterChanges hsteady (enqueueByte_changes kernel))
      (enqueueByte_placed h.positioned hmode)
  | getchar hmode => exact h.afterGetchar hmode
  | @wake mask hmode =>
    have hsteady : Event.wake.Steady := trivial
    exact .of_placed ((h.kept (hplain hmode rfl)).afterChanges hsteady
      ((sysPpollTail_quiet kernel mask).changes.mode .user)) ⟨hpositioned, rfl⟩
  | yield hmode => exact h.afterYield hmode

theorem launched (root entry stack : Word) :
    FutexSteady (fun _ => none) (NPKernel.launched root entry stack) := by
  have hwaiting : ∀ thread,
      ((NPKernel.launched root entry stack).threads thread).futexWaiting = false := by
    intro thread
    simp only [NPKernel.launched]
    split_ifs <;> rfl
  refine ⟨.launched root entry stack, .launched root entry stack, ?_, ⟨?_, ?_, ?_⟩, ?_, ?_, ?_, ?_⟩
  · have hinactive : ∀ i, ((NPKernel.launched root entry stack).futexWaiters i).active ≠ true :=
      fun i h => by cases h
    refine ⟨fun thread h => ?_, fun thread h => ?_, fun i h => absurd h (hinactive i),
      fun i j h => absurd h (hinactive i)⟩
    · rw [hwaiting] at h
      cases h
    · rw [hwaiting] at h
      cases h
  · intro process
    simp only [NPKernel.launched]
    split_ifs <;> rfl
  · intro process
    simp only [NPKernel.launched]
    split_ifs <;> rfl
  · intro thread
    simp only [NPKernel.launched]
    split_ifs <;> exact fun h => by cases h
  · exact fun _ h => by cases h
  · exact fun _ h => by cases h
  · exact fun h => by cases h
  · exact fun h => by cases h

theorem afterRun {root entry stack : Word} {events : List Event}
    (hevents : ∀ event ∈ events, event.waitsOrExecs = false)
    (hrun : run (track step noteAddress) (NPKernel.launched root entry stack, fun _ => none)
      events = some (kernel, addresses)) : FutexSteady addresses kernel := by
  have hpreserve : ∀ (state : Kernel × FutexAddresses) event next, FutexSteady state.2 state.1 →
      event.waitsOrExecs = false → track step noteAddress state event = some next →
      FutexSteady next.2 next.1 := by
    rintro state event next h hevent htrack
    obtain ⟨hstep, hnote⟩ := track_eq_some htrack
    rw [hnote]
    exact h.afterStep hevent hstep
  exact invariant_run hpreserve (FutexSteady.launched root entry stack)
    (Guarded.of_forall fun _ => hevents) hrun

end FutexSteady

end Kernel

end NPKernel
