import NPKernel.SignalQueues
import NPKernel.ThreadGroups

/-!
# What an exec leaves of the old image

`process_exec_current` clears the pending signals of its caller, but neither the
records queued with them nor the address registered for `clear_child_tid`.  A
record that stays in the queue is handed to the next handler of its signal, and
the address is written when the thread ends.  When nothing is queued and nothing
registered at an exec, everything that is used later comes from later calls.
-/

namespace NPKernel

open RegisterStack GuardedRuns

variable {thread : Thread} {info : SignalInfo} {slot : ThreadSlot} {ended : Kernel}
  {event : Event}

/-! ## The queue of a thread -/

def QueueWithin (payloads : SignalInfo → Prop) (thread : Thread) : Prop :=
  ∀ i < thread.signalQueueCount, payloads (thread.signalQueue (signalQueueIndex thread i))

variable {payloads : SignalInfo → Prop} {signal : Word}

theorem signalQueueShift_within (indices : List ℕ) (queue : ℕ → SignalInfo)
    (hindices : ∀ i ∈ indices, i + 1 < thread.signalQueueCount)
    (h : ∀ i < thread.signalQueueCount, payloads (queue (signalQueueIndex thread i)))
    (i : ℕ) (hi : i < thread.signalQueueCount) :
    payloads (signalQueueShift thread indices queue (signalQueueIndex thread i)) := by
  induction indices generalizing queue with
  | nil => exact h i hi
  | cons first rest ih =>
    refine ih _ (fun j hj => hindices j (List.mem_cons_of_mem _ hj)) ?_
    intro j hj
    rw [Function.update_apply]
    split
    · exact h _ (hindices first List.mem_cons_self)
    · exact h j hj

theorem signalQueuePop_within (h : QueueWithin payloads thread) (signal : Word) :
    QueueWithin payloads (signalQueuePop thread signal).1 ∧
      ∀ info ∈ (signalQueuePop thread signal).2, payloads info := by
  unfold signalQueuePop
  split
  · refine ⟨h, ?_⟩
    rintro info ⟨⟩
  next found hfound =>
  have hbound : found < thread.signalQueueCount := by
    have hmem := List.mem_of_find?_eq_some hfound
    simpa using hmem
  refine ⟨?_, ?_⟩
  · intro i hi
    dsimp only at hi
    refine signalQueueShift_within _ _ ?_ h i (by omega)
    intro j hj
    rw [List.mem_range'_1] at hj
    omega
  · rintro info ⟨⟩
    exact h found hbound

theorem takePendingSignal_within (h : QueueWithin payloads thread) (signal : Word) :
    QueueWithin payloads (takePendingSignal thread signal).1 ∧
      ∀ info ∈ (takePendingSignal thread signal).2, payloads info := by
  have hcleared : QueueWithin payloads
      { thread with signalPending := thread.signalPending &&& ~~~signalBit signal } := h
  obtain ⟨hwithin, hinfo⟩ := signalQueuePop_within hcleared signal
  unfold takePendingSignal
  dsimp only
  refine ⟨?_, hinfo⟩
  split <;> exact hwithin

theorem signalQueuePush_within {pushed : Thread}
    (h : QueueWithin payloads thread) (htail : QueueTailed thread)
    (hinfo : payloads info) (hpushed : signalQueuePush thread info = some pushed) :
    QueueWithin payloads pushed := by
  unfold signalQueuePush at hpushed
  split at hpushed
  · cases hpushed
  cases hpushed
  intro i hi
  dsimp only at hi ⊢
  rw [Function.update_apply]
  split
  · exact hinfo
  next hother =>
  refine h i ?_
  have hne : i ≠ thread.signalQueueCount := by
    rintro rfl
    exact hother htail.symm
  omega

/-! ## What the pending-signal loop delivers -/

theorem pendingChoice_within (process : Process)
    (deliverable : Word) (numbers : List ℕ) (h : QueueWithin payloads thread)
    (hchoice : (pendingChoice process deliverable numbers thread).2 =
      .deliver signal (some info)) : payloads info := by
  induction numbers generalizing thread with
  | nil => cases hchoice
  | cons number numbers ih =>
    obtain ⟨hwithin, hinfo⟩ := takePendingSignal_within h (BitVec.ofNat 64 number)
    rw [pendingChoice] at hchoice
    dsimp only at hchoice
    split at hchoice
    · exact ih h hchoice
    split at hchoice
    · exact ih hwithin hchoice
    · split at hchoice
      · cases hchoice
      · injection hchoice with _ hsome
        exact hinfo info hsome

theorem Thread.pendingDelivery_within (h : QueueWithin payloads thread) {process : Process}
    (hdelivery : thread.pendingDelivery process = .deliver signal (some info)) :
    payloads info := by
  unfold Thread.pendingDelivery at hdelivery
  split at hdelivery
  · cases hdelivery
  · exact pendingChoice_within process _ _ h hdelivery

/-! ## The asynchronous state of a process -/

namespace Kernel

/-- Everything that is queued for a live thread of the process satisfies
`payloads`, and every address registered by a thread of it satisfies
`addresses`. -/
structure AsyncWithin (process : ProcId) (payloads : SignalInfo → Prop)
    (addresses : Word → Prop) (kernel : Kernel) : Prop where
  tailed : ∀ thread, QueueTailed (kernel.threads thread).toThread
  payload : ∀ thread, (kernel.threads thread).owner = some process →
    (kernel.threads thread).state.live = true →
    QueueWithin payloads (kernel.threads thread).toThread
  address : ∀ thread, (kernel.threads thread).owner = some process →
    (kernel.threads thread).clearChildTid ≠ 0 →
    addresses (kernel.threads thread).clearChildTid

/-- The fields that `AsyncWithin` reads, but for the state. -/
def asyncFields (slot : ThreadSlot) : (ℕ → SignalInfo) × ℕ × ℕ × ℕ × Word × Option ProcId :=
  (slot.signalQueue, slot.signalQueueHead, slot.signalQueueTail, slot.signalQueueCount,
    slot.clearChildTid, slot.owner)

namespace AsyncWithin

variable {process : ProcId} {payloads : SignalInfo → Prop} {addresses : Word → Prop}
  {kernel after : Kernel}

variable (h : AsyncWithin process payloads addresses kernel)

include h

theorem of_fields (hfields : ∀ thread, asyncFields (after.threads thread) =
      asyncFields (kernel.threads thread))
    (hlive : ∀ thread, (after.threads thread).state.live = true →
      (kernel.threads thread).state.live = true) :
    AsyncWithin process payloads addresses after := by
  simp only [asyncFields, Prod.mk.injEq] at hfields
  refine ⟨?_, ?_, ?_⟩
  · intro thread
    obtain ⟨-, hhead, htail, hcount, -, -⟩ := hfields thread
    have htailed := h.tailed thread
    unfold QueueTailed at htailed ⊢
    rw [hhead, htail, hcount]
    exact htailed
  · intro thread howner hafter
    obtain ⟨hqueue, hhead, -, hcount, -, hsame⟩ := hfields thread
    have hwithin := h.payload thread (hsame ▸ howner) (hlive thread hafter)
    unfold QueueWithin signalQueueIndex at hwithin ⊢
    rw [hqueue, hhead, hcount]
    exact hwithin
  · intro thread howner
    obtain ⟨-, -, -, -, hclear, hsame⟩ := hfields thread
    rw [hclear]
    exact h.address thread (hsame ▸ howner)

theorem setThread {thread : ThreadId}
    (hthreads : after.threads = Function.update kernel.threads thread slot)
    (htailed : QueueTailed slot.toThread)
    (hqueue : slot.owner = some process → slot.state.live = true →
      QueueWithin payloads slot.toThread)
    (haddress : slot.owner = some process → slot.clearChildTid ≠ 0 → addresses slot.clearChildTid) :
    AsyncWithin process payloads addresses after := by
  refine ⟨?_, ?_, ?_⟩ <;> intro other <;> rw [hthreads, Function.update_apply] <;> split
  · exact htailed
  · exact h.tailed other
  · exact hqueue
  · exact h.payload other
  · exact haddress
  · exact h.address other

theorem setSignals {thread : ThreadId}
    {signals : Thread} (hthreads : after.threads = Function.update kernel.threads thread
      { kernel.threads thread with toThread := signals })
    (hsame : signals.withoutSignals = (kernel.threads thread).toThread.withoutSignals)
    (htailed : QueueTailed signals)
    (hqueue : QueueWithin payloads (kernel.threads thread).toThread →
      QueueWithin payloads signals) :
    AsyncWithin process payloads addresses after := by
  have howner : signals.withoutSignals.owner = _ := congrArg (fun thread => thread.owner) hsame
  have hstate : signals.withoutSignals.state = _ := congrArg (fun thread => thread.state) hsame
  refine h.setThread hthreads htailed ?_ ?_
  · intro hafter hlive
    exact hqueue (h.payload thread (howner.symm.trans hafter)
      ((congrArg ThreadState.live hstate).symm.trans hlive))
  · intro hafter
    exact h.address thread (howner.symm.trans hafter)

theorem setEmpty {thread : ThreadId}
    (hthreads : after.threads = Function.update kernel.threads thread slot)
    (hqueue : slot.signalQueueHead = 0 ∧ slot.signalQueueTail = 0 ∧ slot.signalQueueCount = 0)
    (haddress : slot.clearChildTid ≠ 0 → addresses slot.clearChildTid) :
    AsyncWithin process payloads addresses after := by
  obtain ⟨hhead, htail, hcount⟩ := hqueue
  refine h.setThread hthreads ?_ (fun _ _ => ?_) (fun _ => haddress)
  · unfold QueueTailed
    rw [hhead, htail, hcount]
    rfl
  · intro i hi
    rw [hcount] at hi
    exact absurd hi (Nat.not_lt_zero i)

theorem afterSched
    (hstep : SchedStep kernel after) : AsyncWithin process payloads addresses after := by
  refine h.of_fields (hstep.field asyncFields fun _ => rfl) ?_
  intro thread hlive
  rw [← hstep.live]
  exact hlive

theorem afterEnd {ends : ThreadId → Prop}
    (hstep : EndStep ends kernel ended) (hthreads : after.threads = ended.threads) :
    AsyncWithin process payloads addresses after := by
  have hqueues := hstep.field (fun slot => (slot.signalQueue, slot.signalQueueHead,
    slot.signalQueueTail, slot.signalQueueCount)) (fun _ _ => rfl) (fun _ => rfl)
  simp only [Prod.mk.injEq] at hqueues
  refine ⟨?_, ?_, ?_⟩
  · intro thread
    obtain ⟨-, hhead, htail, hcount⟩ := hqueues thread
    have htailed := h.tailed thread
    unfold QueueTailed at htailed ⊢
    rw [hthreads, hhead, htail, hcount]
    exact htailed
  · intro thread howner hlive
    rw [hthreads] at howner hlive ⊢
    have hkept : ¬ends thread := by
      intro hends
      rw [hstep.zombie hends] at hlive
      cases hlive
    obtain ⟨hqueue, hhead, -, hcount⟩ := hqueues thread
    have hwithin := h.payload thread ((hstep.owner thread).symm.trans howner)
      ((hstep.kept thread hkept).live ▸ hlive)
    unfold QueueWithin signalQueueIndex at hwithin ⊢
    rw [hqueue, hhead, hcount]
    exact hwithin
  · intro thread howner hclear
    rw [hthreads] at howner hclear ⊢
    by_cases hends : ends thread
    · obtain ⟨slot, -, hslot⟩ := hstep.ended thread hends
      rw [hslot] at hclear
      exact absurd rfl hclear
    · rw [(hstep.kept thread hends).field (fun slot => slot.clearChildTid) fun _ _ => rfl]
        at hclear ⊢
      exact h.address thread ((hstep.owner thread).symm.trans howner) hclear

variable (hqueues : ∀ info, Queues event info → payloads info)
  (hregisters : ∀ address, Registers event address → addresses address)

include hqueues hregisters

theorem afterPersonal (hpersonal : PersonalChange event kernel after) :
    AsyncWithin process payloads addresses after := by
  cases hpersonal with
  | signal _ hsignal =>
    have htailed := h.tailed kernel.current
    refine h.setSignals rfl hsignal.withoutSignals ?_ ?_
    · cases hsignal with
      | took signal => exact takePendingSignal_tailed htailed signal
      | entered | left => exact htailed
    · intro hwithin
      cases hsignal with
      | took signal => exact (takePendingSignal_within hwithin signal).1
      | entered | left => exact hwithin
  | masked mask => exact h.setSignals rfl rfl (h.tailed kernel.current) id
  | @queued target info pushed signal hinfo hpushed =>
    have hsame := signalQueuePush_withoutSignals hpushed
    refine h.setSignals rfl ?_ ?_ ?_
    · exact hsame
    · have htailed := h.tailed target
      cases info with
      | none =>
        cases hpushed
        exact htailed
      | some info =>
        have hafter : QueueTailed pushed := signalQueuePush_tailed htailed hpushed
        exact hafter
    · intro hwithin
      cases info with
      | none =>
        cases hpushed
        exact hwithin
      | some info =>
        have hafter : QueueWithin payloads pushed := signalQueuePush_within hwithin
          (h.tailed target) (hqueues info (hinfo info rfl)) hpushed
        exact hafter
  | bases =>
    refine h.setThread rfl (h.tailed kernel.current) ?_ ?_
    · exact h.payload kernel.current
    · exact h.address kernel.current
  | @tidAddress user answers address hevent hcall =>
    refine h.setThread rfl (h.tailed kernel.current) ?_ ?_
    · exact h.payload kernel.current
    · intro _ _
      exact hregisters address ⟨user, answers, hevent, .inl hcall⟩

theorem afterChange (hchange : Change event kernel after) :
    AsyncWithin process payloads addresses after := by
  cases hchange with
  | moved hmove => exact h.afterSched hmove.sched
  | personal hpersonal => exact h.afterPersonal hqueues hregisters hpersonal
  | action => exact h.of_fields (fun _ => rfl) fun _ => id
  | forked =>
    refine h.setEmpty rfl ⟨rfl, rfl, rfl⟩ ?_
    intro hzero
    exact absurd rfl hzero
  | @cloned _ _ user answers flags childStack parentTid tls childTid hevent hcall =>
    refine h.setEmpty rfl ⟨rfl, rfl, rfl⟩ ?_
    simp only [cloneThread]
    split
    · intro _
      exact hregisters childTid
        ⟨user, answers, hevent, .inr ⟨flags, childStack, parentTid, tls, hcall⟩⟩
    · intro hzero
      exact absurd rfl hzero
  | clearedThread =>
    refine h.setEmpty rfl ⟨rfl, rfl, rfl⟩ ?_
    intro hzero
    exact absurd rfl hzero
  | clearedProcess => exact h.of_fields (fun _ => rfl) fun _ => id
  | threadEnded _ _ _ hended => exact h.afterEnd hended rfl
  | processEnded _ _ _ _ hended => exact h.afterEnd hended rfl
  | reaped =>
    refine ⟨?_, ?_, ?_⟩ <;> intro thread <;> dsimp only <;> split
    · rfl
    · exact h.tailed thread
    · intro hnone
      cases hnone
    · exact h.payload thread
    · intro hnone
      cases hnone
    · exact h.address thread

theorem afterTransition (htransition : Transition event kernel after) :
    AsyncWithin process payloads addresses after := by
  cases htransition with
  | changed hchange => exact h.afterChange hqueues hregisters hchange
  | switched hswitch => exact h.afterSched hswitch.sched

end AsyncWithin

/-! ## Exec -/

variable {kernel after : Kernel} {process : ProcId} {payloads : SignalInfo → Prop}
  {addresses : Word → Prop} {user : UserState} {answers : Answers}

theorem processExecCurrent_live (answers : Answers) (hgroups : kernel.GroupsCounted)
    (hlive : kernel.running.state.live = true) (thread : ThreadId) :
    ((kernel.processExecCurrent answers).2.threads thread).state.live =
      (kernel.threads thread).state.live := by
  rcases processExecCurrent_mainLive answers hgroups hlive with ⟨-, heq⟩ |
    ⟨process, staged, main, -, -, -, -, hmember, heq⟩
  · rw [heq]
  rw [heq]
  dsimp only
  rw [setThread_threads]
  split
  next heq =>
    subst heq
    exact (mem_liveThreads.mp hmember).2.symm
  · rw [execCaller, setThread_threads]
    split
    next heq =>
      subst heq
      rfl
    · rfl

theorem AsyncWithin.afterExec (answers : Answers)
    (h : AsyncWithin process payloads addresses kernel) (hgroups : kernel.GroupsCounted)
    (hrunning : kernel.running.state.live = true) :
    AsyncWithin process payloads addresses (kernel.processExecCurrent answers).2 := by
  refine h.of_fields ?_ ?_
  · exact processExecCurrent_field answers kernel asyncFields (fun _ _ => rfl) fun _ _ => rfl
  · intro thread hlive
    rw [← processExecCurrent_live answers hgroups hrunning]
    exact hlive

/-- What the threads of a process have queued and registered in the events of a
run, in which the process table stays in order. -/
def AsyncSound (process : ProcId) (payloads : SignalInfo → Prop) (addresses : Word → Prop)
    (kernel : Kernel) : Prop :=
  kernel.GroupsCounted ∧ AsyncWithin process payloads addresses kernel

section

variable (h : AsyncSound process payloads addresses kernel)

include h

theorem AsyncSound.afterTransition (hqueues : ∀ info, Queues event info → payloads info)
    (hregisters : ∀ address, Registers event address → addresses address)
    (htransition : Transition event kernel after) :
    AsyncSound process payloads addresses after :=
  ⟨h.1.afterTransition htransition, h.2.afterTransition hqueues hregisters htransition⟩

theorem AsyncSound.afterTransitions (hqueues : ∀ info, Queues event info → payloads info)
    (hregisters : ∀ address, Registers event address → addresses address)
    (htransitions : Transitions event kernel after) :
    AsyncSound process payloads addresses after := by
  induction htransitions with
  | refl => exact h
  | tail _ hlast ih => exact ih.afterTransition hqueues hregisters hlast

theorem AsyncSound.afterRun {last : Kernel} {events : List Event} (hpositioned : kernel.Positioned)
    (hqueues : ∀ event ∈ events, ∀ info, Queues event info → payloads info)
    (hregisters : ∀ event ∈ events, ∀ address, Registers event address → addresses address)
    (hrun : run step kernel events = some last) :
    AsyncSound process payloads addresses last := by
  have hpreserve : ∀ before event after,
      (before.Positioned ∧ AsyncSound process payloads addresses before) → event ∈ events →
      before.step event = some after →
      after.Positioned ∧ AsyncSound process payloads addresses after := by
    rintro before event after ⟨hbefore, hsound⟩ hevent hstep
    refine ⟨step_positioned hbefore hstep, ?_⟩
    refine step_invariant ?_ ?_ hbefore hsound hstep
    · intro first second hfirst htransition
      exact hfirst.afterTransition (hqueues event hevent) (hregisters event hevent) htransition
    · rintro user answers - - hlive hentered
      exact ⟨hentered.1.afterExec answers hlive, hentered.2.afterExec answers hentered.1 hlive⟩
  exact (invariant_run hpreserve ⟨hpositioned, h⟩ (.of_forall fun _ _ => id) hrun).2

end

theorem AsyncSound.launched (process : ProcId) (root entry stack : Word) :
    AsyncSound process (fun _ => True) (fun _ => True) (NPKernel.launched root entry stack) := by
  refine ⟨.launched root entry stack, ?_, fun _ _ _ _ _ => trivial, fun _ _ _ => trivial⟩
  intro thread
  simp only [NPKernel.launched]
  split_ifs <;> rfl

/-- An exec of the running thread finds no record queued for a live thread of
its process, and no address registered by a thread of it. -/
def ExecClean (kernel : Kernel) : Prop :=
  ∀ thread, (kernel.threads thread).owner ≠ none →
    (kernel.threads thread).owner = kernel.processCurrent →
    ((kernel.threads thread).state.live = true → (kernel.threads thread).signalQueueCount = 0) ∧
    (kernel.threads thread).clearChildTid = 0

instance (kernel : Kernel) : Decidable kernel.ExecClean := by
  unfold ExecClean
  infer_instance

theorem ExecClean.within (h : kernel.ExecClean) (hprocess : kernel.processCurrent = some process)
    (htailed : ∀ thread, QueueTailed (kernel.threads thread).toThread)
    (payloads : SignalInfo → Prop) (addresses : Word → Prop) :
    AsyncWithin process payloads addresses kernel := by
  have hthread : ∀ thread, (kernel.threads thread).owner = some process → _ :=
    fun thread howner => h thread (by simp [howner]) (howner.trans hprocess.symm)
  refine ⟨htailed, ?_, ?_⟩
  · intro thread howner hlive i hi
    rw [(hthread thread howner).1 hlive] at hi
    exact absurd hi (Nat.not_lt_zero i)
  · intro thread howner hclear
    exact absurd (hthread thread howner).2 hclear

theorem not_queues_of_execve (hcall : user.syscallFrame.syscall = .execve) (info : SignalInfo) :
    ¬Queues (.syscall user answers) info := by
  rintro ⟨caller, own, kernel, signal, userInfo, hevent, -, hqueue⟩
  cases hevent
  rw [hcall] at hqueue
  rcases hqueue with ⟨pid, hqueue⟩ | ⟨tgid, tid, hqueue⟩ <;> cases hqueue

theorem not_registers_of_execve (hcall : user.syscallFrame.syscall = .execve) (address : Word) :
    ¬Registers (.syscall user answers) address := by
  rintro ⟨caller, own, hevent, hregister⟩
  cases hevent
  rw [hcall] at hregister
  rcases hregister with hregister | ⟨flags, childStack, parentTid, tls, hregister⟩ <;>
    cases hregister

end Kernel

/-- In every run, after a successful exec at which the threads of the process had
nothing queued and nothing registered: in every state reached, also while one
more event is under way, a record that the pending-signal loop would hand to a
handler of the process was queued after the exec, and an address that would be
cleared when a thread ends was registered after the exec. -/
theorem exec_discards_async_state {root entry stack : Word} {before after : List Event}
    {user : UserState} {answers : Answers} {caller next last inner : Kernel} {event : Event}
    {process : ProcId} (hbefore : run Kernel.step (launched root entry stack) before = some caller)
    (hmode : caller.mode = .user) (hprocess : caller.processCurrent = some process)
    (hclean : caller.ExecClean) (hcall : user.syscallFrame.syscall = .execve)
    (hexec : Kernel.syscallDispatch answers (caller.enterSyscall user.syscallFrame)
      user.syscallFrame = .returned 0 next) (hafter : run Kernel.step next after = some last)
    (hinner : Kernel.Transitions event last inner) (thread : ThreadId)
    (howner : (inner.threads thread).owner = some process) :
    ((inner.threads thread).state.live = true → ∀ signal info,
      (inner.threads thread).toThread.pendingDelivery (inner.processes process).toProcess =
        .deliver signal (some info) →
      ∃ later ∈ after ++ [event], Kernel.Queues later info) ∧
    ((inner.threads thread).clearChildTid ≠ 0 →
      ∃ later ∈ after ++ [event], Kernel.Registers later (inner.threads thread).clearChildTid) := by
  have hcaller := (Kernel.Positioned.launched root entry stack).afterRun hbefore
  have hreached := (Kernel.AsyncSound.launched process root entry stack).afterRun
    (.launched root entry stack) (fun _ _ _ _ => trivial) (fun _ _ _ _ => trivial) hbefore
  have hstep : run Kernel.step caller [.syscall user answers] = some next := by
    rw [run, Kernel.step, if_pos hmode, hexec]
    rfl
  -- the exec neither queues nor registers, so the later events start from nothing
  have hnext : Kernel.AsyncSound process
      (fun info => ∃ later ∈ after ++ [event], Kernel.Queues later info)
      (fun address => ∃ later ∈ after ++ [event], Kernel.Registers later address) next := by
    refine Kernel.AsyncSound.afterRun
      ⟨hreached.1, hclean.within hprocess hreached.2.tailed _ _⟩ hcaller ?_ ?_ hstep
    · intro exec hmem info hqueues
      cases List.mem_singleton.mp hmem
      exact absurd hqueues (Kernel.not_queues_of_execve hcall info)
    · intro exec hmem address hregisters
      cases List.mem_singleton.mp hmem
      exact absurd hregisters (Kernel.not_registers_of_execve hcall address)
  have hlast := hnext.afterRun (hcaller.afterRun hstep)
    (fun later hmem info hqueues => ⟨later, List.mem_append_left _ hmem, hqueues⟩)
    (fun later hmem address hregisters => ⟨later, List.mem_append_left _ hmem, hregisters⟩) hafter
  have hend : event ∈ after ++ [event] := List.mem_append_right _ (List.mem_singleton_self event)
  have hsound := hlast.afterTransitions (fun info hqueues => ⟨event, hend, hqueues⟩)
    (fun address hregisters => ⟨event, hend, hregisters⟩) hinner
  refine ⟨?_, hsound.2.address thread howner⟩
  intro hthread signal info hdelivery
  exact Thread.pendingDelivery_within (hsound.2.payload thread howner hthread) hdelivery

def execCall : UserState := .calling 59 []

def Kernel.executed (kernel : Kernel) : Word × Kernel :=
  (kernel.enterSyscall execCall.syscallFrame).processExecCurrent (willing [])

theorem Kernel.executed_dispatch {kernel : Kernel} (h : kernel.executed.1 = 0) :
    Kernel.syscallDispatch (willing []) (kernel.enterSyscall execCall.syscallFrame)
      execCall.syscallFrame = .returned 0 kernel.executed.2 := by
  rw [← h]
  rfl

/-- The first process handles a signal that it queues to itself, and registers
an address that it takes back. -/
def settledRun : List Event :=
  [.call 13 [34, 0x6000, 0, 8] (willing [0x401000, 4, 0x402000, 0]),
    .call 129 [2, 34, 0x6000] (willing [34, 0, 0, 0xbad]), .call 218 [0x6000], .call 218 [0]]

def registerRun : List Event := [.call 218 [0x7000]]

theorem exec_discards_async_state_registered :
    ∃ caller next last, run Kernel.step sampleKernel settledRun = some caller ∧
      Kernel.syscallDispatch (willing []) (caller.enterSyscall execCall.syscallFrame)
        execCall.syscallFrame = .returned 0 next ∧
      run Kernel.step next registerRun = some last ∧
      ∃ later ∈ registerRun ++ [.kernelTick],
        Kernel.Registers later (last.threads 2).clearChildTid := by
  have hfacts : (run Kernel.step sampleKernel settledRun).bind (fun caller =>
      (run Kernel.step caller.executed.2 registerRun).map fun last =>
        ((caller.mode, caller.processCurrent, decide caller.ExecClean, caller.executed.1),
          (last.threads 2).owner, (last.threads 2).clearChildTid)) =
      some ((.user, some 1, true, 0), some 1, 0x7000) := by
    decide +kernel
  obtain ⟨caller, hbefore, hfacts⟩ := Option.bind_eq_some_iff.1 hfacts
  obtain ⟨last, hafter, hvalues⟩ := Option.map_eq_some_iff.1 hfacts
  simp only [Prod.mk.injEq, decide_eq_true_eq] at hvalues
  obtain ⟨⟨hmode, hprocess, hclean, hzero⟩, howner, haddress⟩ := hvalues
  have hexec := Kernel.executed_dispatch hzero
  refine ⟨caller, _, last, hbefore, hexec, hafter, ?_⟩
  apply (exec_discards_async_state hbefore hmode hprocess hclean rfl hexec hafter .refl 2 howner).2
  rw [haddress]
  decide

/-- The first process forks, blocks signal 34 and queues it to itself. -/
def queueRun : List Event :=
  [.call 57 [], .call 14 [0, 0x6000, 0, 8] (willing [0x200000000]),
    .call 129 [0, 34, 0x6000] (willing [34, 0, 0, 0xbad])]

/-- The new image installs a handler, and the child sends the signal. -/
def handleRun : List Event :=
  [.call 13 [34, 0x6000, 0, 8] (willing [0x401000, 4, 0x402000, 0]),
    .timer (.calling 0 []) (willing []), .call 62 [2, 34]]

/-- The handler of the new image gets the record that was queued for the old one. -/
theorem exec_keeps_queued_record :
    ¬ ∀ (before after : List Event) (caller next last : Kernel) (process : ProcId)
        (thread : ThreadId) (signal : Word) (info : SignalInfo),
      run Kernel.step sampleKernel before = some caller →
      caller.mode = .user → caller.processCurrent = some process →
      Kernel.syscallDispatch (willing []) (caller.enterSyscall execCall.syscallFrame)
        execCall.syscallFrame = .returned 0 next →
      run Kernel.step next after = some last →
      (last.threads thread).owner = some process →
      (last.threads thread).state.live = true →
      (last.threads thread).toThread.pendingDelivery (last.processes process).toProcess =
        .deliver signal (some info) →
      ∃ later ∈ after, Kernel.Queues later info := by
  intro h
  have hfacts : (run Kernel.step sampleKernel queueRun).bind (fun caller =>
      (run Kernel.step caller.executed.2 handleRun).map fun last =>
        ((caller.mode, caller.processCurrent, caller.executed.1), (last.threads 2).owner,
          (last.threads 2).state,
          (last.threads 2).toThread.pendingDelivery (last.processes 1).toProcess)) =
      some ((.user, some 1, 0), some 1, .ready, .deliver 34 (some
        { signal := 34, code := 0, senderPid := 2, senderUid := 0, value := 0xbad })) := by
    decide +kernel
  obtain ⟨caller, hbefore, hfacts⟩ := Option.bind_eq_some_iff.1 hfacts
  obtain ⟨last, hafter, hvalues⟩ := Option.map_eq_some_iff.1 hfacts
  simp only [Prod.mk.injEq] at hvalues
  obtain ⟨⟨hmode, hprocess, hzero⟩, howner, hstate, hdelivery⟩ := hvalues
  obtain ⟨later, hmem, user, answers, kernel, signal, userInfo, hevent, -, hqueue⟩ :=
    h _ _ caller _ last 1 2 _ _ hbefore hmode hprocess (Kernel.executed_dispatch hzero) hafter
      howner (by rw [hstate]; rfl) hdelivery
  simp only [handleRun, Event.call, List.mem_cons, List.not_mem_nil, or_false] at hmem
  rcases hmem with rfl | rfl | rfl
  · cases hevent
    rcases hqueue with ⟨pid, hqueue⟩ | ⟨tgid, tid, hqueue⟩ <;> cases hqueue
  · cases hevent
  · cases hevent
    rcases hqueue with ⟨pid, hqueue⟩ | ⟨tgid, tid, hqueue⟩ <;> cases hqueue

end NPKernel
