import NPKernel.GuardedRuns

/-!
# Readers of the keyboard

A reader that finds the queue empty puts itself into the one waiter pointer and blocks.  The
next byte wakes the thread in the pointer and clears it.  While no reader overwrites the pointer
to another one that is still blocked, the pointer names the only blocked thread.  Otherwise the
first reader is forgotten.
-/

namespace NPKernel.InputWaiters

open GuardedRuns

/-- A thread in the call runs or is ready to run. -/
inductive Status
  | outside
  | inCall
  | blocked
deriving DecidableEq

structure State (n : ℕ) where
  queue : List UInt8
  inputWaiter : Option (Fin n)
  status : Fin n → Status

inductive Event (n : ℕ)
  | call (thread : Fin n)
  | pass (thread : Fin n)
  | wake (thread : Fin n)
  | key (value : UInt8)
deriving DecidableEq

def QUEUE_SIZE : ℕ := 1024

namespace State

variable {n : ℕ}

def setStatus (state : State n) (thread : Fin n) (status : Status) : State n :=
  { state with status := Function.update state.status thread status }

def schedulerWakeThread (state : State n) (thread : Fin n) : State n :=
  if state.status thread = .blocked then state.setStatus thread .inCall else state

def enqueueByte (state : State n) (value : UInt8) : State n :=
  if state.queue.length + 1 < QUEUE_SIZE then
    let queued := { state with queue := state.queue ++ [value] }
    match state.inputWaiter with
    | none => queued
    | some waiter => schedulerWakeThread { queued with inputWaiter := none } waiter
  else state

/-- A pass of the loop in `keyboard_getchar_blocking`, in which interrupts are off. -/
def getcharPass (state : State n) (thread : Fin n) : State n :=
  match state.queue with
  | _ :: queue => { state with queue := queue }.setStatus thread .outside
  | [] => { state with inputWaiter := some thread }.setStatus thread .blocked

def step (state : State n) : Event n → State n
  | .call thread =>
    if state.status thread = .outside then state.setStatus thread .inCall else state
  | .pass thread => if state.status thread = .inCall then state.getcharPass thread else state
  | .wake thread => state.schedulerWakeThread thread
  | .key value => state.enqueueByte value

def start : State n := ⟨[], none, fun _ => .outside⟩

def run (events : List (Event n)) : State n := events.foldl step start

/-- With bytes in the queue and no thread on its way to them, no thread is blocked. -/
def NoSleeper (state : State n) : Prop :=
  state.queue ≠ [] → (∀ thread, state.status thread ≠ .inCall) →
    ∀ thread, state.status thread ≠ .blocked

/-- A blocked thread is the registered one, and there is nothing to read. -/
def Registered (state : State n) : Prop :=
  ∀ thread, state.status thread = .blocked → state.inputWaiter = some thread ∧ state.queue = []

@[simp]
theorem setStatus_blocked_iff (state : State n) (thread other : Fin n) (status : Status) :
    (state.setStatus thread status).status other = .blocked ↔
      if other = thread then status = .blocked else state.status other = .blocked := by
  simp only [setStatus, Function.update_apply]
  split <;> rfl

variable {state : State n}

theorem Registered.setStatus (h : state.Registered) (thread : Fin n) {status : Status}
    (hstatus : status ≠ .blocked) : (state.setStatus thread status).Registered := by
  intro other hother
  rw [setStatus_blocked_iff] at hother
  split at hother
  · exact absurd hother hstatus
  · exact h other hother

theorem Registered.schedulerWakeThread (h : state.Registered) (thread : Fin n) :
    (state.schedulerWakeThread thread).Registered := by
  unfold State.schedulerWakeThread
  split
  · exact h.setStatus thread (by decide)
  · exact h

theorem Registered.enqueueByte (h : state.Registered) (value : UInt8) :
    (state.enqueueByte value).Registered := by
  unfold State.enqueueByte
  split
  · intro thread hthread
    cases hwaiter : state.inputWaiter with
    | none =>
      rw [hwaiter] at hthread
      rw [(h thread hthread).1] at hwaiter
      cases hwaiter
    | some waiter =>
      -- Only the waiter can be blocked, and it is woken.
      have hregistered : ∀ other, state.status other = .blocked → other = waiter := by
        intro other hother
        exact (Option.some.inj (hwaiter.symm.trans (h other hother).1)).symm
      simp only [hwaiter, State.schedulerWakeThread] at hthread
      split at hthread
      · rw [setStatus_blocked_iff] at hthread
        split at hthread
        · cases hthread
        next hne => exact absurd (hregistered thread hthread) hne
      next hawake =>
        rw [hregistered thread hthread] at hthread
        exact absurd hthread hawake
  · exact h

theorem Registered.getcharPass (h : state.Registered) {thread : Fin n}
    (hkeeps : ∀ waiter, state.queue = [] → state.inputWaiter = some waiter →
      state.status waiter ≠ .blocked) : (state.getcharPass thread).Registered := by
  have hawake : ∀ other, state.status other ≠ .blocked := by
    intro other hblocked
    obtain ⟨hwaiter, hqueue⟩ := h other hblocked
    exact hkeeps other hqueue hwaiter hblocked
  intro other hother
  unfold State.getcharPass at hother ⊢
  cases hqueue : state.queue with
  | nil =>
    simp only [hqueue, setStatus_blocked_iff] at hother
    split at hother
    next hsame => exact ⟨congrArg some hsame.symm, rfl⟩
    · exact absurd hother (hawake other)
  | cons value queue =>
    simp only [hqueue, setStatus_blocked_iff] at hother
    split at hother
    · cases hother
    · exact absurd hother (hawake other)

/-- No pass that finds the queue empty overwrites the pointer to a thread that is blocked. -/
def KeepsWaiter (state : State n) (event : Event n) : Prop :=
  ∀ thread waiter, event = .pass thread → state.status thread = .inCall → state.queue = [] →
    state.inputWaiter = some waiter → state.status waiter ≠ .blocked

instance instDecidableKeepsWaiter (state : State n) (event : Event n) :
    Decidable (state.KeepsWaiter event) :=
  inferInstanceAs (Decidable (∀ _ _, _))

theorem Registered.step (h : state.Registered) {event : Event n}
    (hkeeps : state.KeepsWaiter event) : (state.step event).Registered := by
  unfold State.step
  cases event with
  | call thread =>
    dsimp only
    split
    · exact h.setStatus thread (by decide)
    · exact h
  | pass thread =>
    dsimp only
    split
    next hcall => exact h.getcharPass fun waiter => hkeeps thread waiter rfl hcall
    · exact h
  | wake thread => exact h.schedulerWakeThread thread
  | key value => exact h.enqueueByte value

theorem Registered.foldl {events : List (Event n)} (h : state.Registered)
    (hkeeps : Guarded (fun state event => some (state.step event)) KeepsWaiter state events) :
    (events.foldl State.step state).Registered := by
  induction events generalizing state with
  | nil => exact h
  | cons event events ih => exact ih (h.step hkeeps.1) (hkeeps.tail rfl)

/-- However many threads read: in every run in which each pass that finds the queue empty leaves
the pointer to a blocked thread alone, no thread sleeps on input. -/
theorem no_sleeper_of_keepsWaiter {events : List (Event n)}
    (hkeeps : Guarded (fun state event => some (state.step event)) KeepsWaiter start events) :
    (State.run events).NoSleeper := by
  have hstart : (start : State n).Registered := by
    intro thread hthread
    cases hthread
  intro hqueue _ thread hblocked
  exact hqueue (hstart.foldl hkeeps thread hblocked).2

/-- Two readers take turns, and the second one leaves a byte behind. -/
def turnsRun : List (Event 2) :=
  [.call 0, .pass 0, .key 0x61, .pass 0, .call 1, .pass 1, .key 0x62, .key 0x63, .pass 1]

theorem no_sleeper_of_turns :
    (State.run turnsRun).queue = [0x63] ∧ (State.run turnsRun).NoSleeper :=
  ⟨by decide, no_sleeper_of_keepsWaiter (by decide)⟩

/-- The first reader sleeps on a byte that the second one has left. -/
theorem second_reader_overwrites :
    ¬(State.run ([.call 0, .pass 0, .call 1, .pass 1, .key 0x61, .key 0x62, .pass 1] :
      List (Event 2))).NoSleeper := by
  intro h
  exact absurd (h (by decide) (by decide) 0) (by decide)

end State

end NPKernel.InputWaiters
