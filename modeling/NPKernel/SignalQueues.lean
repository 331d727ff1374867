import NPKernel.RingBuffers
import NPKernel.SignalReturn

/-!
# The queue of signals with information

A thread keeps the records of queued signals in a ring of 32 cells, next to one
pending bit per signal.  A record is removed from wherever it stands when its
signal is taken, so the ring is a list from which the first record of a signal
is erased.  Every accepted record stays in that list, with the bit of its signal
set, until a delivery of its signal takes it.
-/

namespace NPKernel

open RegisterStack GuardedRuns

/-! ## The bits of a mask -/

variable {signal word other : Word} {thread pushed : Thread} {info : SignalInfo}

theorem signalBit_of_range (h : 1 ≤ signal ∧ signal ≤ 64) :
    signalBit signal = BitVec.twoPow 64 (signal.toNat - 1) := by
  have hindex : (signal - 1).toNat = signal.toNat - 1 := by bv_omega
  rw [signalBit, if_pos h, BitVec.shiftLeft_eq', hindex]
  rfl

theorem and_signalBit_ne_zero (word signal : Word) :
    word &&& signalBit signal ≠ 0 ↔
      (1 ≤ signal ∧ signal ≤ 64) ∧ word.getLsbD (signal.toNat - 1) = true := by
  by_cases hrange : 1 ≤ signal ∧ signal ≤ 64
  · have hlt : signal.toNat - 1 < 64 := by bv_omega
    have htwo : BitVec.twoPow 64 (signal.toNat - 1) ≠ 0 := by
      intro hzero
      have hset := congrArg (fun w : Word => w.getLsbD (signal.toNat - 1)) hzero
      simp [hlt] at hset
    rw [signalBit_of_range hrange, BitVec.and_twoPow]
    split
    next hset => exact iff_of_true htwo ⟨hrange, hset⟩
    next hclear => exact iff_of_false (fun h => h rfl) fun h => hclear h.2
  · rw [signalBit, if_neg hrange]
    exact iff_of_false (fun h => h BitVec.and_zero) fun h => hrange h.1

theorem or_signalBit_ne_zero (h : signalBit signal ≠ 0) (word : Word) :
    (word ||| signalBit signal) &&& signalBit signal ≠ 0 := by
  have hown : signalBit signal &&& signalBit signal ≠ 0 := by rwa [BitVec.and_self]
  rw [and_signalBit_ne_zero] at hown ⊢
  exact ⟨hown.1, by rw [BitVec.getLsbD_or, hown.2, Bool.or_true]⟩

theorem or_and_signalBit_ne_zero (h : word &&& signalBit signal ≠ 0)
    (other : Word) : (word ||| other) &&& signalBit signal ≠ 0 := by
  rw [and_signalBit_ne_zero] at h ⊢
  exact ⟨h.1, by rw [BitVec.getLsbD_or, h.2, Bool.true_or]⟩

theorem clear_signalBit_ne_zero (hne : signal ≠ other) (h : word &&& signalBit signal ≠ 0) :
    word &&& ~~~signalBit other &&& signalBit signal ≠ 0 := by
  rw [and_signalBit_ne_zero] at h ⊢
  refine ⟨h.1, ?_⟩
  have hlt : signal.toNat - 1 < 64 := by bv_omega
  have hclear : (signalBit other).getLsbD (signal.toNat - 1) = false := by
    by_cases hrange : 1 ≤ other ∧ other ≤ 64
    · have hindex : signal.toNat - 1 ≠ other.toNat - 1 := by bv_omega
      simp [signalBit_of_range hrange, BitVec.getLsbD_twoPow, Ne.symm hindex]
    · rw [signalBit, if_neg hrange]
      exact BitVec.getLsbD_zero
  rw [BitVec.getLsbD_and, BitVec.getLsbD_not, h.2, hclear]
  simp [hlt]

/-! ## The ring as a list -/

def Thread.queued (thread : Thread) : List SignalInfo :=
  RingBuffers.contents NPK_SIGNAL_QUEUE_MAX thread.signalQueueHead thread.signalQueue
    thread.signalQueueCount

/-- The tail index is where the next record of the queue belongs. -/
def QueueTailed (thread : Thread) : Prop :=
  thread.signalQueueTail = (thread.signalQueueHead + thread.signalQueueCount) % NPK_SIGNAL_QUEUE_MAX

def isSignal (signal : Word) (info : SignalInfo) : Bool := info.signal == signal

theorem isSignal_disjoint (hne : signal ≠ other) (info : SignalInfo)
    (h : isSignal signal info = true) : isSignal other info = false := by
  simp only [isSignal, beq_iff_eq, beq_eq_false_iff_ne] at h ⊢
  rwa [h]

@[simp]
theorem Thread.length_queued (thread : Thread) :
    thread.queued.length = thread.signalQueueCount := by
  simp [Thread.queued]

theorem signalQueueContains_eq (thread : Thread) (signal : Word) :
    signalQueueContains thread signal = thread.queued.any (isSignal signal) := by
  rw [Thread.queued, RingBuffers.any_contents]
  rfl

theorem signalQueueShift_eq (thread : Thread) (indices : List ℕ) (queue : ℕ → SignalInfo) :
    signalQueueShift thread indices queue =
      RingBuffers.shift NPK_SIGNAL_QUEUE_MAX thread.signalQueueHead indices queue := by
  induction indices generalizing queue with
  | nil => rfl
  | cons i indices ih => exact ih _

/-- The position at which `signal_queue_pop` stops. -/
def Thread.queuePosition (thread : Thread) (signal : Word) : Option ℕ :=
  (List.range thread.signalQueueCount).find? fun i =>
    (thread.signalQueue (signalQueueIndex thread i)).signal == signal

theorem Thread.queuePosition_eq (thread : Thread) (signal : Word) :
    thread.queuePosition signal = thread.queued.findIdx? (isSignal signal) := by
  rw [Thread.queued, RingBuffers.findIdx?_contents]
  rfl

theorem signalQueuePop_info (thread : Thread) (signal : Word) :
    (signalQueuePop thread signal).2 = thread.queued.find? (isSignal signal) := by
  have hfind : thread.queued.find? (isSignal signal) =
      (thread.queuePosition signal).map
        fun i => thread.signalQueue (signalQueueIndex thread i) := by
    rw [Thread.queued, RingBuffers.find?_contents]
    rfl
  rw [hfind, Thread.queuePosition, signalQueuePop]
  split
  next hnone => rw [hnone, Option.map_none]
  next found hfound => rw [hfound, Option.map_some]

theorem signalQueuePop_queued
    (hbound : thread.signalQueueCount ≤ NPK_SIGNAL_QUEUE_MAX) (signal : Word) :
    (signalQueuePop thread signal).1.queued = thread.queued.eraseP (isSignal signal) := by
  rw [List.eraseP_eq_eraseIdx, ← Thread.queuePosition_eq, Thread.queuePosition, signalQueuePop]
  split
  next hnone => rw [hnone]
  next found hfound =>
  have hlt : found < thread.signalQueueCount := by
    simpa using List.mem_of_find?_eq_some hfound
  rw [hfound]
  dsimp only
  rw [Thread.queued, signalQueueShift_eq]
  exact RingBuffers.contents_shift hlt hbound

theorem signalQueuePop_tailed (h : QueueTailed thread) (signal : Word) :
    QueueTailed (signalQueuePop thread signal).1 := by
  unfold signalQueuePop
  split
  · exact h
  · rfl

theorem signalQueuePush_some (hpushed : signalQueuePush thread info = some pushed) :
    thread.signalQueueCount < NPK_SIGNAL_QUEUE_MAX ∧
      pushed = { thread with
        signalQueue := Function.update thread.signalQueue thread.signalQueueTail info
        signalQueueTail := (thread.signalQueueTail + 1) % NPK_SIGNAL_QUEUE_MAX
        signalQueueCount := thread.signalQueueCount + 1 } := by
  unfold signalQueuePush at hpushed
  split at hpushed
  · cases hpushed
  next hroom =>
    cases hpushed
    exact ⟨by omega, rfl⟩

theorem signalQueuePush_queued
    (htail : QueueTailed thread) (hpushed : signalQueuePush thread info = some pushed) :
    pushed.queued = thread.queued ++ [info] := by
  obtain ⟨hroom, rfl⟩ := signalQueuePush_some hpushed
  have hcell : thread.signalQueueTail =
    RingBuffers.cell NPK_SIGNAL_QUEUE_MAX thread.signalQueueHead thread.signalQueueCount := htail
  unfold Thread.queued
  dsimp only
  rw [hcell]
  exact RingBuffers.contents_push hroom info

theorem signalQueuePush_tailed
    (htail : QueueTailed thread) (hpushed : signalQueuePush thread info = some pushed) :
    QueueTailed pushed := by
  obtain ⟨_, rfl⟩ := signalQueuePush_some hpushed
  unfold QueueTailed at htail ⊢
  dsimp only
  rw [htail, Nat.mod_add_mod, Nat.add_assoc]

/-! ## Taking a pending signal -/

def Thread.withPending (thread : Thread) (pending : Word) : Thread :=
  { thread with signalPending := pending }

@[simp]
theorem Thread.withPending_queued (thread : Thread) (pending : Word) :
    (thread.withPending pending).queued = thread.queued := rfl

theorem signalQueuePop_pending (thread : Thread) (signal : Word) :
    (signalQueuePop thread signal).1.signalPending = thread.signalPending := by
  unfold signalQueuePop
  split <;> rfl

/-- The state between the pop and the test that sets the bit again. -/
def poppedSignal (thread : Thread) (signal : Word) : Thread :=
  (signalQueuePop (thread.withPending (thread.signalPending &&& ~~~signalBit signal)) signal).1

theorem takePendingSignal_thread (thread : Thread) (signal : Word) :
    (takePendingSignal thread signal).1 =
      if (poppedSignal thread signal).queued.any (isSignal signal) then
        (poppedSignal thread signal).withPending
          ((poppedSignal thread signal).signalPending ||| signalBit signal)
      else poppedSignal thread signal := by
  rw [← signalQueueContains_eq]
  rfl

theorem takePendingSignal_info (thread : Thread) (signal : Word) :
    (takePendingSignal thread signal).2 = thread.queued.find? (isSignal signal) :=
  signalQueuePop_info (thread.withPending (thread.signalPending &&& ~~~signalBit signal)) signal

theorem takePendingSignal_popped (thread : Thread) (signal : Word) :
    (takePendingSignal thread signal).1.queued = (poppedSignal thread signal).queued := by
  rw [takePendingSignal_thread]
  split <;> rfl

theorem takePendingSignal_queued
    (hbound : thread.signalQueueCount ≤ NPK_SIGNAL_QUEUE_MAX) (signal : Word) :
    (takePendingSignal thread signal).1.queued = thread.queued.eraseP (isSignal signal) := by
  have hcleared : (thread.withPending
      (thread.signalPending &&& ~~~signalBit signal)).signalQueueCount ≤
      NPK_SIGNAL_QUEUE_MAX := hbound
  rw [takePendingSignal_popped]
  exact signalQueuePop_queued hcleared signal

theorem takePendingSignal_bounded
    (hbound : thread.signalQueueCount ≤ NPK_SIGNAL_QUEUE_MAX) (signal : Word) :
    (takePendingSignal thread signal).1.signalQueueCount ≤ NPK_SIGNAL_QUEUE_MAX := by
  rw [← Thread.length_queued] at hbound ⊢
  rw [takePendingSignal_queued (by simpa using hbound)]
  exact (List.length_eraseP_le).trans hbound

theorem takePendingSignal_tailed (h : QueueTailed thread) (signal : Word) :
    QueueTailed (takePendingSignal thread signal).1 := by
  have hcleared : QueueTailed
      (thread.withPending (thread.signalPending &&& ~~~signalBit signal)) := h
  have hpopped : QueueTailed (poppedSignal thread signal) :=
    signalQueuePop_tailed hcleared signal
  rw [takePendingSignal_thread]
  split <;> exact hpopped

/-- What is pending after a signal was taken: the other signals as before, and
the signal itself while a record of it is queued. -/
theorem takePendingSignal_pending (thread : Thread) (signal : Word) :
    (takePendingSignal thread signal).1.signalPending =
      if (takePendingSignal thread signal).1.queued.any (isSignal signal) then
        thread.signalPending &&& ~~~signalBit signal ||| signalBit signal
      else thread.signalPending &&& ~~~signalBit signal := by
  have hpending : (poppedSignal thread signal).signalPending =
      thread.signalPending &&& ~~~signalBit signal := signalQueuePop_pending _ _
  rw [takePendingSignal_popped, takePendingSignal_thread]
  split
  · rw [← hpending]
    rfl
  · exact hpending

/-! ## What the pending-signal loop delivers -/

inductive PendingChoice where
  | none
  | terminate (signal : Word)
  | deliver (signal : Word) (info : Option SignalInfo)
  deriving DecidableEq

/-- The loop of `process_deliver_pending_common` up to its call of
`process_deliver_signal_with_info`. -/
def pendingChoice (process : Process) (deliverable : Word) :
    List ℕ → Thread → Thread × PendingChoice
  | [], thread => (thread, .none)
  | number :: numbers, thread =>
    let signal := BitVec.ofNat 64 number
    if deliverable &&& signalBit signal = 0 then
      pendingChoice process deliverable numbers thread
    else
      let taken := takePendingSignal thread signal
      let action := process.signalActions number
      if action.handler = 1 ∧ ¬signalUncatchable signal then
        pendingChoice process deliverable numbers taken.1
      else if signalUncatchable signal ∨ action.handler = 0 then
        (taken.1, .terminate signal)
      else (taken.1, .deliver signal taken.2)

/-- What `process_deliver_pending_common` does for a thread of the process. -/
def Thread.pendingDelivery (thread : Thread) (process : Process) : PendingChoice :=
  if !process.alive || thread.privilegeRing != 3 || thread.signalInflight then .none
  else
    (pendingChoice process (thread.signalPending &&& ~~~thread.signalBlocked)
      (List.range' 1 64) thread).2

theorem deliverPendingFrom_choice {μ : Type} (access : UserAccess μ) (deliverable : Word)
    (numbers : List ℕ) (task : SignalTask μ) (frame : Stack Word) :
    deliverPendingFrom access deliverable numbers task frame =
      match pendingChoice task.process deliverable numbers task.thread with
      | (thread, .none) => .none { task with thread := thread }
      | (thread, .terminate signal) => .terminated { task with thread := thread } signal
      | (thread, .deliver signal info) =>
        match processDeliverSignalWithInfo access { task with thread := thread } frame signal
            info with
        | (true, task, frame) => .delivered task frame
        | (false, task, _) => .terminated task signal := by
  induction numbers generalizing task with
  | nil => rfl
  | cons number numbers ih =>
    rw [deliverPendingFrom, pendingChoice]
    dsimp only
    split
    · exact ih task
    split
    · exact ih _
    · split <;> rfl

/-- The signals that the loop takes off the thread, the ignored ones and the one
it acts on, each with the record popped for it. -/
def pendingTaken (process : Process) (deliverable : Word) :
    List ℕ → Thread → List (Word × Option SignalInfo)
  | [], _ => []
  | number :: numbers, thread =>
    let signal := BitVec.ofNat 64 number
    if deliverable &&& signalBit signal = 0 then
      pendingTaken process deliverable numbers thread
    else
      let taken := takePendingSignal thread signal
      let action := process.signalActions number
      (signal, taken.2) ::
        if action.handler = 1 ∧ ¬signalUncatchable signal then
          pendingTaken process deliverable numbers taken.1
        else []

/-- What `process_deliver_pending_common` takes off the thread. -/
def SignalTask.taken {μ : Type} (task : SignalTask μ) : List (Word × Option SignalInfo) :=
  if !task.process.alive || task.thread.privilegeRing != 3 || task.thread.signalInflight then []
  else
    pendingTaken task.process (task.thread.signalPending &&& ~~~task.thread.signalBlocked)
      (List.range' 1 64) task.thread

/-! ## The account of a queue -/

/-- What was accepted into the queue of a thread, and the signals delivered to it
with the records they took. -/
structure QueueLedger where
  accepted : List SignalInfo
  deliveries : List (Word × Option SignalInfo)

def QueueLedger.empty : QueueLedger := ⟨[], []⟩

def QueueLedger.taken (ledger : QueueLedger) (signal : Word) : List SignalInfo :=
  ledger.deliveries.filterMap fun delivery => if delivery.1 = signal then delivery.2 else none

def noteQueue {μ : Type} (ledger : QueueLedger) (task : SignalTask μ) :
    ThreadAction μ → SignalTask μ → QueueLedger
  | .queueSignal signal (some info), _ =>
    if (queueSignalToThread task.thread signal (some info)).1 = 0 then
      { ledger with accepted := ledger.accepted ++ [info] }
    else ledger
  | .pendingSignals _, _ => { ledger with deliveries := ledger.deliveries ++ task.taken }
  | _, _ => ledger

/-- A queueing call puts the number of the signal into its record, and the image
is not replaced. -/
def QueueAction {μ : Type} : ThreadAction μ → Prop
  | .queueSignal signal (some info) => info.signal = signal
  | .exec _ => False
  | _ => True

structure QueueAccount (ledger : QueueLedger) (thread : Thread) : Prop where
  tailed : QueueTailed thread
  bounded : thread.signalQueueCount ≤ NPK_SIGNAL_QUEUE_MAX
  -- accepted in this order, and still in this order
  order : thread.queued.Sublist ledger.accepted
  -- taken or still queued, never both, the oldest first
  balance : ∀ signal, ledger.accepted.filter (isSignal signal) =
    ledger.taken signal ++ thread.queued.filter (isSignal signal)
  own : ∀ delivery ∈ ledger.deliveries, ∀ info ∈ delivery.2, info.signal = delivery.1
  pending : ∀ info ∈ thread.queued, thread.signalPending &&& signalBit info.signal ≠ 0

def Thread.queueState (thread : Thread) : (ℕ → SignalInfo) × ℕ × ℕ × ℕ × Word :=
  (thread.signalQueue, thread.signalQueueHead, thread.signalQueueTail,
    thread.signalQueueCount, thread.signalPending)

theorem futexCompleteThread_queueState (thread : Thread) (result : Word) :
    (futexCompleteThread thread result).queueState = thread.queueState := by
  unfold futexCompleteThread
  split <;> rfl

/-- A send is refused and changes nothing, or it queues its record, if it has
one, and sets the bit of its signal. -/
theorem queueSignalToThread_cases (thread : Thread) (signal : Word) (info : Option SignalInfo) :
    ((queueSignalToThread thread signal info).1 ≠ 0 ∧
      (queueSignalToThread thread signal info).2 = thread) ∨
    ∃ pushed, signalBit signal ≠ 0 ∧
      info.elim (some thread) (signalQueuePush thread) = some pushed ∧
      (queueSignalToThread thread signal info).1 = 0 ∧
      (queueSignalToThread thread signal info).2.queueState =
        (pushed.withPending (pushed.signalPending ||| signalBit signal)).queueState := by
  unfold queueSignalToThread
  split
  · exact .inl ⟨(by decide : -PROCESS_ESRCH ≠ 0), rfl⟩
  next hbit =>
  cases hpush : info.elim (some thread) (signalQueuePush thread) with
  | none => exact .inl ⟨(by decide : -PROCESS_EAGAIN ≠ 0), rfl⟩
  | some pushed =>
    refine .inr ⟨pushed, hbit, rfl, rfl, ?_⟩
    dsimp only
    split
    · exact futexCompleteThread_queueState _ _
    · rfl

namespace QueueAccount

variable {ledger : QueueLedger} {thread other : Thread}

variable (h : QueueAccount ledger thread)

include h

theorem of_queueState (heq : other.queueState = thread.queueState) : QueueAccount ledger other := by
  simp only [Thread.queueState, Prod.mk.injEq] at heq
  obtain ⟨hqueue, hhead, htail, hcount, hpending⟩ := heq
  have hqueued : other.queued = thread.queued := by
    rw [Thread.queued, Thread.queued, hqueue, hhead, hcount]
  refine ⟨?_, ?_, ?_, ?_, h.own, ?_⟩
  · rw [QueueTailed, hhead, htail, hcount]
    exact h.tailed
  · rw [hcount]
    exact h.bounded
  · rw [hqueued]
    exact h.order
  · rw [hqueued]
    exact h.balance
  · rw [hqueued, hpending]
    exact h.pending

theorem afterTake (signal : Word) :
    QueueAccount
      { ledger with
        deliveries := ledger.deliveries ++ [(signal, (takePendingSignal thread signal).2)] }
      (takePendingSignal thread signal).1 := by
  have hqueued := takePendingSignal_queued h.bounded signal
  have hinfo := takePendingSignal_info thread signal
  refine ⟨takePendingSignal_tailed h.tailed signal, takePendingSignal_bounded h.bounded signal,
    ?_, ?_, ?_, ?_⟩
  · rw [hqueued]
    exact List.eraseP_sublist.trans h.order
  · intro asked
    rw [h.balance asked, hqueued, hinfo, QueueLedger.taken, QueueLedger.taken,
      List.filterMap_append, List.append_assoc]
    congr 1
    by_cases hsame : signal = asked
    · subst hsame
      rw [RingBuffers.filter_eq_find?_append]
      cases thread.queued.find? (isSignal signal) <;> simp
    · rw [RingBuffers.filter_eraseP_of_disjoint (isSignal_disjoint hsame)]
      simp [hsame]
  · intro delivery hdelivery info hmem
    rcases List.mem_append.1 hdelivery with hold | hnew
    · exact h.own delivery hold info hmem
    · obtain rfl := List.mem_singleton.1 hnew
      rw [hinfo] at hmem
      simpa [isSignal] using List.find?_some hmem
  · intro info hmem
    rw [takePendingSignal_pending]
    have hold := h.pending info (List.mem_of_mem_eraseP (hqueued ▸ hmem))
    by_cases hsame : info.signal = signal
    · have hany : (takePendingSignal thread signal).1.queued.any (isSignal signal) = true :=
        List.any_eq_true.2 ⟨info, hmem, by simpa [isSignal] using hsame⟩
      have hbit : signalBit signal ≠ 0 := by
        intro hzero
        rw [hsame, hzero] at hold
        exact hold BitVec.and_zero
      rw [if_pos hany, hsame]
      exact or_signalBit_ne_zero hbit _
    · have hclear := clear_signalBit_ne_zero hsame hold
      split
      · exact or_and_signalBit_ne_zero hclear _
      · exact hclear

omit h in
theorem afterLoop (process : Process) (deliverable : Word) (numbers : List ℕ)
    (h : QueueAccount ledger thread) :
    QueueAccount
      { ledger with
        deliveries := ledger.deliveries ++ pendingTaken process deliverable numbers thread }
      (pendingChoice process deliverable numbers thread).1 := by
  induction numbers generalizing ledger thread with
  | nil =>
    rw [pendingTaken, List.append_nil]
    exact h
  | cons number numbers ih =>
    have htaken := h.afterTake (BitVec.ofNat 64 number)
    rw [pendingTaken, pendingChoice]
    dsimp only
    split
    · exact ih h
    split
    · have hrest := ih htaken
      rwa [List.append_assoc] at hrest
    · split <;> exact htaken

theorem afterPending (signal : Word) :
    QueueAccount ledger (thread.withPending (thread.signalPending ||| signalBit signal)) where
  tailed := h.tailed
  bounded := h.bounded
  order := h.order
  balance := h.balance
  own := h.own
  pending info hmem := or_and_signalBit_ne_zero (h.pending info hmem) _

theorem afterSend (signal : Word) :
    QueueAccount ledger (queueSignalToThread thread signal none).2 := by
  rcases queueSignalToThread_cases thread signal none with
    ⟨_, hsame⟩ | ⟨pushed, _, hpushed, _, hstate⟩
  · rwa [hsame]
  · obtain rfl : thread = pushed := by simpa using hpushed
    exact (h.afterPending signal).of_queueState hstate

theorem afterQueuedSend {info : SignalInfo} :
    QueueAccount
      (if (queueSignalToThread thread info.signal (some info)).1 = 0 then
        { ledger with accepted := ledger.accepted ++ [info] } else ledger)
      (queueSignalToThread thread info.signal (some info)).2 := by
  rcases queueSignalToThread_cases thread info.signal (some info) with
    ⟨hrefused, hsame⟩ | ⟨pushed, hbit, hpushed, haccepted, hstate⟩
  · rwa [if_neg hrefused, hsame]
  rw [if_pos haccepted]
  have hqueued := signalQueuePush_queued h.tailed hpushed
  obtain ⟨hroom, hsent⟩ := signalQueuePush_some hpushed
  have hpending : pushed.signalPending = thread.signalPending := by rw [hsent]
  have hcount : pushed.signalQueueCount = thread.signalQueueCount + 1 := by rw [hsent]
  have htailed : QueueTailed pushed := signalQueuePush_tailed h.tailed hpushed
  suffices hbitSet : QueueAccount { ledger with accepted := ledger.accepted ++ [info] }
      (pushed.withPending (pushed.signalPending ||| signalBit info.signal)) from
    hbitSet.of_queueState hstate
  refine ⟨htailed, ?_, ?_, ?_, h.own, ?_⟩
  · exact hcount.trans_le hroom
  · rw [Thread.withPending_queued, hqueued]
    exact h.order.append (List.Sublist.refl _)
  · intro signal
    rw [Thread.withPending_queued, hqueued, List.filter_append, List.filter_append,
      h.balance signal, List.append_assoc]
    rfl
  · intro queuedInfo hmem
    rw [Thread.withPending_queued, hqueued, List.mem_append, List.mem_singleton] at hmem
    rcases hmem with hold | rfl
    · refine or_and_signalBit_ne_zero ?_ _
      rw [hpending]
      exact h.pending queuedInfo hold
    · exact or_signalBit_ne_zero hbit _

end QueueAccount

section Delivery

variable {μ : Type} (access : UserAccess μ)

theorem processDeliverSignalWithInfo_queueState (task : SignalTask μ) (frame : Stack Word)
    (signal : Word) (info : Option SignalInfo) :
    (processDeliverSignalWithInfo access task frame signal info).2.1.thread.queueState =
      task.thread.queueState := by
  rcases processDeliverSignalWithInfo_cases access task frame signal info with
    ⟨memory, heq⟩ | ⟨memory, _, _, _, heq⟩
  · rw [heq]
  · rw [heq]
    rfl

theorem processSigreturn_queueState (task : SignalTask μ) (frame : SyscallFrame) :
    (processSigreturn access task frame).2.1.thread.queueState = task.thread.queueState := by
  by_cases haccepted : SigreturnAccepted access task frame
  · rw [processSigreturn_accepted access haccepted]
    rfl
  · obtain ⟨memory, heq⟩ := processSigreturn_rejected access haccepted
    rw [heq]

/-- A delivery point leaves the queue as the loop leaves it; the handler that it
may enter does not touch it. -/
theorem step_pendingSignals_queueState {task next : SignalTask μ} {frame : Stack Word}
    (hrunning : (!task.process.alive || task.thread.privilegeRing != 3 ||
      task.thread.signalInflight) = false)
    (hstep : task.step access (.pendingSignals frame) = some next) :
    next.thread.queueState =
      (pendingChoice task.process (task.thread.signalPending &&& ~~~task.thread.signalBlocked)
        (List.range' 1 64) task.thread).1.queueState := by
  simp only [SignalTask.step, processDeliverPendingCommon, hrunning, Bool.false_eq_true,
    if_false, deliverPendingFrom_choice] at hstep
  rcases hchoice : pendingChoice task.process
      (task.thread.signalPending &&& ~~~task.thread.signalBlocked) (List.range' 1 64)
      task.thread with ⟨thread, choice⟩
  rw [hchoice] at hstep
  cases choice with
  | none =>
    cases hstep
    rfl
  | terminate signal => cases hstep
  | deliver signal info =>
    have hstate := processDeliverSignalWithInfo_queueState access
      { task with thread := thread } frame signal info
    dsimp only at hstep
    rcases hdelivered : processDeliverSignalWithInfo access { task with thread := thread } frame
      signal info with ⟨ok, delivered, words⟩
    rw [hdelivered] at hstep hstate
    cases ok with
    | true =>
      cases hstep
      exact hstate
    | false => cases hstep

theorem QueueAccount.afterStep (state : SignalTask μ × QueueLedger) (action : ThreadAction μ)
    (next : SignalTask μ × QueueLedger) (h : QueueAccount state.2 state.1.thread)
    (haction : QueueAction action)
    (hstep : track (SignalTask.step access) noteQueue state action = some next) :
    QueueAccount next.2 next.1.thread := by
  obtain ⟨task, ledger⟩ := state
  obtain ⟨next, ledger'⟩ := next
  obtain ⟨hstep, hledger⟩ := track_eq_some hstep
  dsimp only at h hstep hledger ⊢
  rw [hledger]
  cases action with
  | userCode memory =>
    cases hstep
    exact h
  | setMask mask =>
    cases hstep
    exact h.of_queueState rfl
  | setAction signal sigaction =>
    cases hstep
    exact h
  | queueSignal signal info =>
    cases hstep
    cases info with
    | none => exact h.afterSend signal
    | some info =>
      obtain rfl : info.signal = signal := haction
      exact h.afterQueuedSend
  | fault frame signal =>
    have hstate := processDeliverSignalWithInfo_queueState access task frame signal none
    simp only [SignalTask.step, processDeliverSignal] at hstep
    split at hstep
    next hdelivered =>
      rw [hdelivered] at hstate
      cases hstep
      exact h.of_queueState hstate
    · cases hstep
  | pendingSignals frame =>
    rw [noteQueue, SignalTask.taken]
    split
    next hidle =>
      have hnext : task = next := by
        simpa [SignalTask.step, processDeliverPendingCommon, hidle] using hstep
      rw [List.append_nil, ← hnext]
      exact h
    next hrunning =>
      have hrunning' := Bool.eq_false_of_not_eq_true hrunning
      exact (h.afterLoop _ _ _).of_queueState
        (step_pendingSignals_queueState access hrunning' hstep)
  | sigreturn frame =>
    cases hstep
    exact h.of_queueState (processSigreturn_queueState access task frame)
  | exec memory => exact haction.elim

end Delivery

end NPKernel
