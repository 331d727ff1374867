import NPKernel.KernelState

/-!
# Futex waiters

The waiter table of `src/proc/process.c`.  A wait is ended by a wake, by its
deadline or by a signal; all three go through `futex_complete_thread`, which
records a result in the thread and makes it ready.  `FutexStep` says what any
number of such completions can change.
-/

namespace NPKernel

def PROCESS_EPERM : Word := 1
def PROCESS_EFAULT : Word := 14
def PROCESS_ENOMEM : Word := 12
def PROCESS_ETIMEDOUT : Word := 110
def TIMER_FREQUENCY : ℕ := 100

def ThreadState.woken : ThreadState → ThreadState
  | .blocked => .ready
  | state => state

@[simp]
theorem ThreadState.woken_live (state : ThreadState) : state.woken.live = state.live := by
  cases state <;> rfl

@[simp]
theorem ThreadState.woken_woken (state : ThreadState) : state.woken.woken = state.woken := by
  cases state <;> rfl

def ThreadSlot.futexCompleted (slot : ThreadSlot) (result : Word) : ThreadSlot :=
  { slot with
    futexWaiting := false
    futexResult := result
    state := slot.state.woken }

theorem ThreadSlot.futexCompleted_futexCompleted (slot : ThreadSlot) (first second : Word) :
    (slot.futexCompleted first).futexCompleted second = slot.futexCompleted second := by
  simp [ThreadSlot.futexCompleted]

def ThreadSlot.Completed (before after : ThreadSlot) : Prop :=
  after = before ∨ ∃ result, after = before.futexCompleted result

namespace ThreadSlot.Completed

variable {before after : ThreadSlot} (h : Completed before after)
include h

theorem field {α : Type*} (view : ThreadSlot → α)
    (hview : ∀ slot result, view (slot.futexCompleted result) = view slot) :
    view after = view before := by
  rcases h with rfl | ⟨result, rfl⟩
  · rfl
  · exact hview before result

theorem state : after.state = before.state ∨ after.state = before.state.woken := by
  rcases h with rfl | ⟨result, rfl⟩
  · exact .inl rfl
  · exact .inr rfl

theorem live : after.state.live = before.state.live := by
  rcases h.state with hstate | hstate <;> simp [hstate]

theorem unused : after.state = .unused ↔ before.state = .unused := by
  rcases h.state with hstate | hstate <;> rw [hstate]
  cases before.state <;> simp [ThreadState.woken]

end ThreadSlot.Completed

namespace Kernel

def futexWaits (kernel : Kernel) (thread : ThreadId) : Bool :=
  (List.finRange 256).any fun i =>
    (kernel.futexWaiters i).active && (kernel.futexWaiters i).thread == thread

/-- `futex_complete_thread`: its loop frees every slot of the thread and does
the same to the thread at each of them. -/
def futexCompleteThread (kernel : Kernel) (thread : ThreadId) (result : Word) : Kernel :=
  if kernel.futexWaits thread then
    { kernel.setThread thread ((kernel.threads thread).futexCompleted result) with
      futexWaiters := fun i =>
        if (kernel.futexWaiters i).thread = thread then
          { kernel.futexWaiters i with active := false }
        else kernel.futexWaiters i }
  else kernel

def futexCancelThread (kernel : Kernel) (thread : ThreadId) : Kernel :=
  kernel.futexCompleteThread thread (-PROCESS_EINTR)

def futexWakeFrom (root userAddress : Word) (count : ℕ) :
    List (Fin 256) → Kernel → ℕ → Kernel × ℕ
  | [], kernel, woken => (kernel, woken)
  | i :: slots, kernel, woken =>
    if count ≤ woken then (kernel, woken)
    else
      let waiter := kernel.futexWaiters i
      if !waiter.active || waiter.addressSpaceRoot != root ||
          waiter.userAddress != userAddress then
        futexWakeFrom root userAddress count slots kernel woken
      else
        futexWakeFrom root userAddress count slots
          (kernel.futexCompleteThread waiter.thread 0) (woken + 1)

def futexWakeInternal (kernel : Kernel) (root userAddress : Word) (count : ℕ) : Kernel × ℕ :=
  futexWakeFrom root userAddress count (List.finRange 256) kernel 0

def deadlinePassed (now deadline : Word) : Bool :=
  0 ≤ (now - deadline).toInt

def futexExpireFrom : List (Fin 256) → Kernel → Kernel
  | [], kernel => kernel
  | i :: slots, kernel =>
    let waiter := kernel.futexWaiters i
    if waiter.active && waiter.timed && deadlinePassed kernel.timerTicks waiter.deadline then
      futexExpireFrom slots (kernel.futexCompleteThread waiter.thread (-PROCESS_ETIMEDOUT))
    else futexExpireFrom slots kernel

def futexExpireWaiters (kernel : Kernel) : Kernel :=
  futexExpireFrom (List.finRange 256) kernel

/-- `clear_child_tid`; the zero it stores goes to user memory. -/
def clearChildTid (answers : Answers) (kernel : Kernel) (thread : ThreadId) : Kernel :=
  let slot := kernel.threads thread
  match slot.owner with
  | none => kernel
  | some process =>
    if slot.clearChildTid = 0 then kernel
    else
      let stored :=
        if vmmIsUserRange slot.clearChildTid 4 &&
            answers.vmEnsureUserPage process slot.clearChildTid then
          (kernel.futexWakeInternal (kernel.processes process).addressSpaceRoot
            slot.clearChildTid UINT32_MAX).1
        else kernel
      stored.setThread thread { stored.threads thread with clearChildTid := 0 }

/-! ## What completions change -/

def SlotsKept (before after : Fin 256 → FutexWaiter) (thread : ThreadId) : Prop :=
  ∀ i, (before i).thread = thread → after i = before i

structure SlotsFreed (before after : Fin 256 → FutexWaiter) (thread : ThreadId) : Prop where
  waited : ∃ i, (before i).active = true ∧ (before i).thread = thread
  slot : ∀ i, (before i).thread = thread → after i = { before i with active := false }

section Slots

variable {first second third : Fin 256 → FutexWaiter} {thread : ThreadId}

theorem SlotsKept.named (h : SlotsKept first second thread) {i : Fin 256}
    (hthread : (first i).thread = thread) : (second i).thread = thread := by
  rw [h i hthread, hthread]

theorem SlotsFreed.named (h : SlotsFreed first second thread) {i : Fin 256}
    (hthread : (first i).thread = thread) : (second i).thread = thread := by
  rw [h.slot i hthread]
  exact hthread

theorem SlotsFreed.afterKept (h : SlotsFreed second third thread)
    (hkept : SlotsKept first second thread)
    (hname : ∀ i, (second i).thread = (first i).thread) : SlotsFreed first third thread := by
  obtain ⟨i, hactive, hi⟩ := h.waited
  rw [hname i] at hi
  refine ⟨⟨i, ?_, hi⟩, fun j hj => ?_⟩
  · rw [← hkept i hi]
    exact hactive
  · rw [h.slot j (hkept.named hj), hkept j hj]

theorem SlotsFreed.trans (h : SlotsFreed first second thread)
    (h' : SlotsKept second third thread ∨ SlotsFreed second third thread) :
    SlotsFreed first third thread := by
  refine ⟨h.waited, fun i hi => ?_⟩
  rcases h' with hkept | hfreed
  · rw [hkept i (h.named hi), h.slot i hi]
  · rw [hfreed.slot i (h.named hi), h.slot i hi]

end Slots

/-- The thread and its slots are as before, or its wait was completed and its
slots are free; `slot` is its record afterwards. -/
def Settled (before after : Kernel) (thread : ThreadId) (slot : ThreadSlot) : Prop :=
  (slot = before.threads thread ∧ SlotsKept before.futexWaiters after.futexWaiters thread) ∨
    ∃ result, slot = (before.threads thread).futexCompleted result ∧
      SlotsFreed before.futexWaiters after.futexWaiters thread

namespace Settled

variable {before after : Kernel} {thread : ThreadId} {slot : ThreadSlot}

theorem completed (h : Settled before after thread slot) :
    (before.threads thread).Completed slot := by
  rcases h with ⟨hsame, -⟩ | ⟨result, hresult, -⟩
  · exact .inl hsame
  · exact .inr ⟨result, hresult⟩

theorem name (h : Settled before after thread slot) {i : Fin 256}
    (hi : (before.futexWaiters i).thread = thread) :
    (after.futexWaiters i).thread = thread ∧
      ((before.futexWaiters i).active = false → (after.futexWaiters i).active = false) := by
  rcases h with ⟨-, hkept⟩ | ⟨-, -, hfreed⟩
  · exact ⟨hkept.named hi, fun hfree => by rw [hkept i hi, hfree]⟩
  · exact ⟨hfreed.named hi, fun _ => by rw [hfreed.slot i hi]⟩

/-- What a second completion does to a record in which the first one left
`slot`; `view` is what else happens to the record in between. -/
theorem then_view {last : Kernel} {slot' : ThreadSlot} {view : ThreadSlot → ThreadSlot}
    (h : Settled before after thread slot) (hafter : after.threads thread = view slot)
    (hview : ∀ slot result, (view slot).futexCompleted result = view (slot.futexCompleted result))
    (hname : ∀ i, (after.futexWaiters i).thread = (before.futexWaiters i).thread)
    (h' : Settled after last thread slot') :
    ∃ final, Settled before last thread final ∧ slot' = view final := by
  rcases h' with ⟨hsame', hkept'⟩ | ⟨result', hresult', hfreed'⟩
  · refine ⟨slot, ?_, hsame'.trans hafter⟩
    rcases h with ⟨hsame, hkept⟩ | ⟨result, hresult, hfreed⟩
    · refine .inl ⟨hsame, fun i hi => ?_⟩
      rw [hkept' i (hkept.named hi), hkept i hi]
    · exact .inr ⟨result, hresult, hfreed.trans (.inl hkept')⟩
  · refine ⟨slot.futexCompleted result', ?_, by rw [hresult', hafter, hview]⟩
    rcases h with ⟨hsame, hkept⟩ | ⟨result, hresult, hfreed⟩
    · exact .inr ⟨result', by rw [hsame], hfreed'.afterKept hkept hname⟩
    · refine .inr ⟨result', ?_, hfreed.trans (.inr hfreed')⟩
      rw [hresult, ThreadSlot.futexCompleted_futexCompleted]

theorem trans {last : Kernel} {slot' : ThreadSlot}
    (h : Settled before after thread (after.threads thread))
    (hname : ∀ i, (after.futexWaiters i).thread = (before.futexWaiters i).thread)
    (h' : Settled after last thread slot') : Settled before last thread slot' := by
  have hid : after.threads thread = id (after.threads thread) := rfl
  obtain ⟨final, hfinal, rfl⟩ := h.then_view hid (fun _ _ => rfl) hname h'
  exact hfinal

end Settled

/-- The later kernel differs from the earlier one in threads whose wait was
completed and in their waiter slots. -/
structure FutexStep (before after : Kernel) : Prop where
  rest : after = { before with threads := after.threads, futexWaiters := after.futexWaiters }
  settled : ∀ thread, Settled before after thread (after.threads thread)

namespace FutexStep

theorem refl (kernel : Kernel) : FutexStep kernel kernel :=
  ⟨rfl, fun _ => .inl ⟨rfl, fun _ _ => rfl⟩⟩

theorem name {before after : Kernel} (h : FutexStep before after) (i : Fin 256) :
    (after.futexWaiters i).thread = (before.futexWaiters i).thread :=
  ((h.settled (before.futexWaiters i).thread).name rfl).1

theorem trans {first second third : Kernel} (h : FutexStep first second)
    (h' : FutexStep second third) : FutexStep first third := by
  refine ⟨?_, fun thread => (h.settled thread).trans h.name (h'.settled thread)⟩
  have hrest := h'.rest
  rw [h.rest] at hrest
  exact hrest

variable {before after : Kernel} (h : FutexStep before after)
include h

theorem thread (thread : ThreadId) : (before.threads thread).Completed (after.threads thread) :=
  (h.settled thread).completed

theorem processes : after.processes = before.processes := by
  rw [h.rest]

theorem current : after.current = before.current := by
  rw [h.rest]

theorem mode : after.mode = before.mode := by
  rw [h.rest]

theorem field {α : Type*} (view : ThreadSlot → α)
    (hview : ∀ slot result, view (slot.futexCompleted result) = view slot)
    (thread : ThreadId) : view (after.threads thread) = view (before.threads thread) :=
  (h.thread thread).field view hview

theorem live (thread : ThreadId) :
    (after.threads thread).state.live = (before.threads thread).state.live :=
  (h.thread thread).live

end FutexStep

theorem futexWaits_iff (kernel : Kernel) (thread : ThreadId) :
    kernel.futexWaits thread = true ↔
      ∃ i, (kernel.futexWaiters i).active = true ∧ (kernel.futexWaiters i).thread = thread := by
  simp [futexWaits]

theorem futexCompleteThread_step (kernel : Kernel) (thread : ThreadId) (result : Word) :
    FutexStep kernel (kernel.futexCompleteThread thread result) := by
  unfold futexCompleteThread
  split
  next hwaits =>
    refine ⟨rfl, fun other => ?_⟩
    by_cases hother : other = thread
    · subst hother
      exact .inr ⟨result, by simp [setThread],
        (kernel.futexWaits_iff other).1 hwaits, fun i hi => if_pos hi⟩
    · refine .inl ⟨by simp [setThread, hother], fun i hi => if_neg ?_⟩
      rw [hi]
      exact hother
  · exact .refl kernel

theorem futexCompleteThread_free (kernel : Kernel) (thread : ThreadId) (result : Word)
    {i : Fin 256} (hi : (kernel.futexWaiters i).thread = thread) :
    ((kernel.futexCompleteThread thread result).futexWaiters i).active = false := by
  unfold futexCompleteThread
  split
  · exact congrArg FutexWaiter.active (if_pos hi)
  next hnone =>
    rw [futexWaits_iff, not_exists] at hnone
    by_contra hactive
    exact hnone i ⟨by simpa using hactive, hi⟩

theorem futexWakeFrom_step (root userAddress : Word) (count : ℕ) (slots : List (Fin 256))
    (kernel : Kernel) (woken : ℕ) :
    FutexStep kernel (futexWakeFrom root userAddress count slots kernel woken).1 := by
  induction slots generalizing kernel woken with
  | nil => exact .refl kernel
  | cons i slots ih =>
    unfold futexWakeFrom
    dsimp only
    split
    · exact .refl kernel
    · split
      · exact ih kernel woken
      · exact (futexCompleteThread_step kernel _ _).trans (ih _ _)

theorem futexWakeInternal_step (kernel : Kernel) (root userAddress : Word) (count : ℕ) :
    FutexStep kernel (kernel.futexWakeInternal root userAddress count).1 :=
  futexWakeFrom_step root userAddress count _ kernel 0

theorem futexExpireFrom_step (slots : List (Fin 256)) (kernel : Kernel) :
    FutexStep kernel (futexExpireFrom slots kernel) := by
  induction slots generalizing kernel with
  | nil => exact .refl kernel
  | cons i slots ih =>
    unfold futexExpireFrom
    dsimp only
    split
    · exact (futexCompleteThread_step kernel _ _).trans (ih _)
    · exact ih kernel

theorem futexExpireWaiters_step (kernel : Kernel) : FutexStep kernel kernel.futexExpireWaiters :=
  futexExpireFrom_step _ kernel

theorem clearChildTid_step (answers : Answers) (kernel : Kernel) (thread : ThreadId) :
    (clearChildTid answers kernel thread = kernel ∧
        ((kernel.threads thread).owner = none ∨ (kernel.threads thread).clearChildTid = 0)) ∨
      ∃ stored, FutexStep kernel stored ∧
        clearChildTid answers kernel thread =
          stored.setThread thread { stored.threads thread with clearChildTid := 0 } := by
  unfold clearChildTid
  dsimp only
  split
  next howner => exact .inl ⟨rfl, .inl howner⟩
  next process _ =>
  split
  next hzero => exact .inl ⟨rfl, .inr hzero⟩
  · refine .inr ⟨_, ?_, rfl⟩
    split
    · exact futexWakeInternal_step kernel _ _ _
    · exact .refl kernel

end Kernel

/-! ## Waiting -/

/-- `futex_timespec_to_ticks`; the outer `none` is the failure. -/
def futexTimespecToTicks (answers : Answers) (userTimeout : Word) : Option ℕ :=
  if userTimeout = 0 then some 0
  else
    match (answers.access.vmmCopyin () userTimeout 2).2 with
    | some [seconds, nanoseconds] =>
      if seconds.toInt < 0 ∨ nanoseconds.toInt < 0 ∨ 1000000000 ≤ nanoseconds.toInt then none
      else if UINT64_MAX / TIMER_FREQUENCY < seconds.toNat then none
      else
        let ticks := seconds.toNat * TIMER_FREQUENCY
        let fractional := nanoseconds.toNat * TIMER_FREQUENCY / 1000000000
        if UINT64_MAX - fractional < ticks then none
        else if ticks + fractional = 0 ∧ (seconds ≠ 0 ∨ nanoseconds ≠ 0) then some 1
        else some (ticks + fractional)
    | _ => none

namespace Kernel

/-- The running thread is blocked on a futex, with the given table of waiters. -/
abbrev futexBlocked (kernel : Kernel) (waiters : Fin 256 → FutexWaiter) : Kernel :=
  { kernel.setThread kernel.current
      { kernel.running with
        futexWaiting := true
        futexResult := -PROCESS_EINTR
        state := .blocked } with
    futexWaiters := waiters
    mode := .yielding .futex }

/-- `process_futex_wait` up to its call of `scheduler_yield`: the error it
returns, or the kernel in which the thread is blocked. -/
def processFutexWait (answers : Answers) (kernel : Kernel) (userAddress : Word)
    (expected : BitVec 32) (userTimeout : Word) : Except Word Kernel :=
  match kernel.processCurrent with
  | none => .error (-PROCESS_EFAULT)
  | some process =>
    if kernel.running.privilegeRing ≠ 3 ∨ userAddress &&& 3 ≠ 0 ∨
        !vmmIsUserRange userAddress 4 then .error (-PROCESS_EFAULT)
    else
      match futexTimespecToTicks answers userTimeout, answers.copyin32 userAddress with
      | none, _ => .error (-PROCESS_EFAULT)
      | _, none => .error (-PROCESS_EFAULT)
      | some ticks, some observed =>
        if observed ≠ expected then .error (-PROCESS_EAGAIN)
        else if userTimeout ≠ 0 ∧ ticks = 0 then .error (-PROCESS_ETIMEDOUT)
        else
          match (List.finRange 256).find? fun i => !(kernel.futexWaiters i).active with
          | none => .error (-PROCESS_ENOMEM)
          | some slot =>
            .ok (kernel.futexBlocked (Function.update kernel.futexWaiters slot
              { active := true
                thread := kernel.current
                addressSpaceRoot := (kernel.processes process).addressSpaceRoot
                userAddress := userAddress
                timed := ticks ≠ 0
                deadline := if ticks = 0 then 0 else kernel.timerTicks + BitVec.ofNat 64 ticks }))

/-- The rest of `process_futex_wait`, when `scheduler_yield` returns to it. -/
def processFutexWaitTail (kernel : Kernel) : Word × Kernel :=
  if kernel.running.futexWaiting then
    let cancelled := kernel.futexCancelThread kernel.current
    (-PROCESS_EAGAIN, cancelled.setThread cancelled.current
      { cancelled.running with futexResult := -PROCESS_EAGAIN, state := .running })
  else
    (kernel.running.futexResult, kernel.setThread kernel.current
      { kernel.running with futexWaiting := false, state := .running })

def processFutexWake (kernel : Kernel) (userAddress : Word) (count : ℕ) : Word × Kernel :=
  match kernel.processCurrent with
  | none => (-PROCESS_EFAULT, kernel)
  | some process =>
    if kernel.running.privilegeRing ≠ 3 ∨ userAddress &&& 3 ≠ 0 ∨
        !vmmIsUserRange userAddress 4 then (-PROCESS_EFAULT, kernel)
    else if count = 0 then (0, kernel)
    else
      let woken := kernel.futexWakeInternal
        (kernel.processes process).addressSpaceRoot userAddress count
      (BitVec.ofNat 64 woken.2, woken.1)

theorem processFutexWake_step (kernel : Kernel) (userAddress : Word) (count : ℕ) :
    FutexStep kernel (kernel.processFutexWake userAddress count).2 := by
  fun_cases kernel.processFutexWake userAddress count with
  | case4 => exact futexWakeInternal_step kernel _ _ _
  | _ => exact .refl kernel

section Wait

variable {answers : Answers} {kernel blocked : Kernel} {userAddress userTimeout : Word}
  {expected : BitVec 32}
  (h : kernel.processFutexWait answers userAddress expected userTimeout = .ok blocked)

include h

theorem processFutexWait_slot :
    ∃ process slot timed deadline, kernel.processCurrent = some process ∧
      kernel.running.privilegeRing = 3 ∧ (kernel.futexWaiters slot).active = false ∧
      blocked = kernel.futexBlocked (Function.update kernel.futexWaiters slot
        { active := true
          thread := kernel.current
          addressSpaceRoot := (kernel.processes process).addressSpaceRoot
          userAddress := userAddress
          timed := timed
          deadline := deadline }) := by
  revert h
  fun_cases kernel.processFutexWait answers userAddress expected userTimeout with
  | case8 process hprocess hring _ _ _ _ _ _ slot hfree =>
    intro h
    injection h with h
    simp only [not_or, not_not] at hring
    have hinactive := List.find?_some hfree
    exact ⟨process, slot, _, _, hprocess, hring.1, by simpa using hinactive, h.symm⟩
  | _ => exact nofun

theorem processFutexWait_ok :
    kernel.running.privilegeRing = 3 ∧ ∃ waiters, blocked = kernel.futexBlocked waiters := by
  obtain ⟨process, slot, timed, deadline, -, hring, -, heq⟩ := processFutexWait_slot h
  exact ⟨hring, _, heq⟩

end Wait

end Kernel

end NPKernel
