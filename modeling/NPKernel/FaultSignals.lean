import NPKernel.SignalReturn

/-!
# From a CPU exception to the signal handler

The exception dispatchers of `src/arch/idt.c` between the entry and the exit of
their assembly stub.  A stub leaves fifteen registers, possibly an error code,
and the five IRET words on the stack; delivery indexes this stack with the
fixed layout that has no error code.  The two agree exactly for the vectors
that involve no error code on either side.
-/

namespace NPKernel

open RegisterStack

def exceptionSignal (vector : Word) : Word :=
  match vector.toNat with
  | 1 => 5
  | 4 => 8
  | 5 => 8
  | 6 => 4
  | 7 => 8
  | 8 => 11
  | 11 => 11
  | 12 => 11
  | 13 => 11
  | 14 => 11
  | 16 => 8
  | 17 => 7
  | 18 => 7
  | 19 => 8
  | 20 => 4
  | 21 => 11
  | _ => 7

def frameWord (wrapper : Stack Word) (hasError : Bool) (index : ℕ) : Word :=
  wrapper (15 + hasError.toNat + index)

inductive DispatchOutcome (μ : Type) where
  | returned (task : SignalTask μ) (frame : Stack Word)
  | terminated (task : SignalTask μ) (signal : Word)
  | panicked

/-- `vm_handle_page_fault` with the faulting address it is given: the error
code, the user stack pointer, and whether the fault was resolved. -/
abbrev PageFaultHandler (μ : Type) := SignalTask μ → Word → Word → SignalTask μ × Bool

section Dispatch

variable {μ : Type} (access : UserAccess μ) (handleFault : PageFaultHandler μ)

def raiseSignal (task : SignalTask μ) (wrapper : Stack Word) (signal : Word) : DispatchOutcome μ :=
  match processDeliverSignal access task wrapper signal with
  | (true, task, frame) => .returned task frame
  | (false, task, _) => .terminated task signal

def pageFaultDispatch (task : SignalTask μ) (wrapper : Stack Word) : DispatchOutcome μ :=
  if isUserSelector (frameWord wrapper true 1) then
    match handleFault task (wrapper 15) (frameWord wrapper true 3) with
    | (task, true) => .returned task wrapper
    | (task, false) => raiseSignal access task wrapper 11
  else .panicked

def generalProtectionDispatch (task : SignalTask μ) (wrapper : Stack Word) : DispatchOutcome μ :=
  if isUserSelector (frameWord wrapper true 1) then raiseSignal access task wrapper 11
  else .panicked

def exceptionDispatch (task : SignalTask μ) (wrapper : Stack Word)
    (vector : Word) (hasError : Bool) : DispatchOutcome μ :=
  if isUserSelector (frameWord wrapper hasError 1) then
    raiseSignal access task wrapper (exceptionSignal vector)
  else .panicked

def Dispatcher.call (dispatcher : Dispatcher) (task : SignalTask μ)
    (wrapper : Stack Word) : DispatchOutcome μ :=
  match dispatcher with
  | .exception vector hasError => exceptionDispatch access task wrapper vector hasError
  | .generalProtection => generalProtectionDispatch access task wrapper
  | .pageFault => pageFaultDispatch access handleFault task wrapper

end Dispatch

/-- What the CPU was executing in ring 3, with the selectors of the GDT. -/
structure UserState where
  regs : RegisterFile
  rip : Word
  rflags : Word
  rsp : Word

namespace UserState

def iret (user : UserState) : IretFrame where
  rip := user.rip
  cs := USER_CS
  rflags := user.rflags
  rsp := user.rsp
  ss := USER_SS

/-- The twenty words of an interrupted user context, in the layout of
`signal_saved_frame`. -/
def words (user : UserState) : Stack Word :=
  SyscallFrame.wrapper { regs := user.regs, iret := user.iret }

end UserState

def exceptionWords (vector : ℕ) (user : UserState) (error : Word) : List Word :=
  interruptWords user.iret (if pushesErrorCode vector then some error else none)

def exceptionWrapper (vector : ℕ) (user : UserState) (error : Word)
    (below : Stack Word) : Stack Word :=
  pushAll (gprs.map user.regs) (pushAll (exceptionWords vector user error) below)

theorem exceptionStub_entry_stack (stub : ExceptionStub) (cpu : Cpu) :
    (cpu.run stub.entry).stack = pushAll (gprs.map cpu.regs) cpu.stack := by
  rw [ExceptionStub.entry, saveGprs, Cpu.run_append, Cpu.run_map_push, Cpu.run_cons,
    Cpu.run_nil, Cpu.exec]
  dsimp only
  split <;> rfl

theorem exceptionStub_exit_stack (stub : ExceptionStub) (cpu : Cpu) :
    (cpu.run stub.exit).stack = drop (15 + stub.hasError.toNat) cpu.stack := by
  have hgs : ∀ slot, (cpu.exec (.swapgsIfUser .rax slot)).stack = cpu.stack := by
    intro slot
    rw [Cpu.exec]
    split <;> rfl
  rw [ExceptionStub.exit, restoreGprs, Cpu.run_append, Cpu.run_append, Cpu.run_map_pop,
    Cpu.run_cons, Cpu.run_nil]
  cases h : stub.hasError with
  | false =>
    rw [if_neg (by simp), Cpu.run_nil]
    dsimp only
    rw [popAll_stack, hgs]
    rfl
  | true =>
    rw [if_pos rfl, Cpu.run_cons, Cpu.run_nil, Cpu.exec]
    dsimp only
    rw [popAll_stack, hgs, drop_drop]
    rfl

@[simp]
theorem exceptionWrapper_above (vector : ℕ) (user : UserState) (error : Word)
    (below : Stack Word) (i : ℕ) :
    exceptionWrapper vector user error below (15 + i) =
      pushAll (exceptionWords vector user error) below i := by
  have hlength : (gprs.map user.regs).length = 15 := rfl
  rw [exceptionWrapper, ← hlength, pushAll_above]

variable {vector : ℕ}

theorem exceptionWords_noError (h : pushesErrorCode vector = false)
    (user : UserState) (error : Word) :
    exceptionWords vector user error = [USER_SS, user.rsp, user.rflags, USER_CS, user.rip] := by
  simp [exceptionWords, interruptWords, h, UserState.iret]

theorem exceptionWords_error (h : pushesErrorCode vector = true) (user : UserState) (error : Word) :
    exceptionWords vector user error =
      [USER_SS, user.rsp, user.rflags, USER_CS, user.rip, error] := by
  simp [exceptionWords, interruptWords, h, UserState.iret]

/-- Without an error code the wrapper holds the interrupted context in the
layout that delivery expects. -/
theorem exceptionWrapper_noError (h : pushesErrorCode vector = false)
    (user : UserState) (error : Word) (below : Stack Word) (i : Fin 20) :
    exceptionWrapper vector user error below i = user.words i := by
  rw [exceptionWrapper, exceptionWords_noError h]
  fin_cases i <;> rfl

/-! ## The property and where it holds -/

section Property

variable {μ : Type} (access : UserAccess μ) (handleFault : PageFaultHandler μ)

/-- The CPU pushes its words for an exception in user mode and the stub of the
vector runs up to the call of its dispatcher; `cpu` is the kernel stack and the
GS bases it finds. -/
def exceptionEntry (cpu : Cpu) (vector : ℕ) (user : UserState) (error : Word) : Cpu :=
  Cpu.run
    { cpu with
      regs := user.regs
      stack := pushAll (exceptionWords vector user error) cpu.stack }
    (exceptionGate vector).entry

theorem exceptionEntry_stack (cpu : Cpu) (vector : ℕ) (user : UserState) (error : Word) :
    (exceptionEntry cpu vector user error).stack = exceptionWrapper vector user error cpu.stack :=
  exceptionStub_entry_stack _ _

/-- The exception is dispatched and its stub returns through `iretq` to the
handler in user mode, on the signal frame, with the interrupted context
saved. -/
def FaultReachesHandler (task : SignalTask μ) (cpu : Cpu) (vector : ℕ)
    (user : UserState) (error : Word) : Prop :=
  let stub := exceptionGate vector
  let entered := exceptionEntry cpu vector user error
  let action := task.process.signalActions (exceptionSignal (BitVec.ofNat 64 vector)).toNat
  match stub.dispatcher.call access handleFault task entered.stack with
  | .returned task frame =>
    let iret := iretFrame (Cpu.run { entered with stack := frame } stub.exit).stack
    iret.rip = action.handler ∧ iret.cs = USER_CS ∧ iret.ss = USER_SS ∧
      iret.rsp = signalFrameAddress user.rsp false ∧
      ∀ i : Fin 20, task.thread.signalSavedFrame i = user.words i
  | _ => False

/-- A fault that may be handled: the process is running in ring 3 without a
signal in flight, has a valid handler and restorer for the signal of the
vector, and its user stack has room for the signal frame. -/
structure HandlerReady (task : SignalTask μ) (vector : ℕ) (user : UserState) : Prop where
  alive : task.process.alive = true
  ring : task.thread.privilegeRing = 3
  idle : task.thread.signalInflight = false
  valid : signalActionHandlerValid (task.process.signalActions
    (exceptionSignal (BitVec.ofNat 64 vector)).toNat) = true
  fits : signalFrameFits user.rsp false = true
  copied : (copyoutAll access task.memory
    (signalFrameCopies
      (task.process.signalActions (exceptionSignal (BitVec.ofNat 64 vector)).toNat)
      (signalFrameAddress user.rsp false) (exceptionSignal (BitVec.ofNat 64 vector))
      none)).2 = true

variable {vector : ℕ} {task task' : SignalTask μ} {wrapper frame : Stack Word} {cpu : Cpu}
  {user : UserState} {error : Word}

/-- The gates of the 32 exception vectors pass the dispatcher a vector with the
same signal, and their error flag is the one they use themselves. -/
theorem exceptionGate_dispatcher (hvector : vector < 32) :
    (exceptionGate vector).dispatcher = .pageFault ∧ vector = 14 ∨
    (exceptionGate vector).dispatcher = .generalProtection ∧ vector = 13 ∨
    ∃ passed, (exceptionGate vector).dispatcher =
        .exception passed (exceptionGate vector).hasError ∧
      exceptionSignal passed = exceptionSignal (BitVec.ofNat 64 vector) := by
  interval_cases vector <;>
    first
    | exact .inl ⟨rfl, rfl⟩
    | exact .inr (.inl ⟨rfl, rfl⟩)
    | exact .inr (.inr ⟨_, rfl, by decide⟩)

theorem exceptionGate_pageFault_hasError (h : (exceptionGate vector).dispatcher = .pageFault) :
    (exceptionGate vector).hasError = true := by
  unfold exceptionGate at h ⊢
  split at h <;> first | rfl | simp [exceptionStubNoError, isrStubDefault] at h

theorem raiseSignal_returned
    {signal : Word} (h : raiseSignal access task wrapper signal = .returned task' frame) :
    ∃ action frameUser,
      frame = enterHandlerFrame wrapper action frameUser signal false ∧
      task'.thread = enterHandlerThread task.thread wrapper action frameUser signal := by
  unfold raiseSignal processDeliverSignal at h
  rcases processDeliverSignalWithInfo_cases access task wrapper signal none with
    ⟨memory, hfail⟩ | ⟨memory, _, _, _, hok⟩
  · rw [hfail] at h
    simp at h
  · rw [hok] at h
    injection h with htask hframe
    exact ⟨_, _, hframe.symm, by rw [← htask]⟩

/-- A dispatcher that returns has either resolved a page fault or rewritten the
wrapper for the handler. -/
theorem dispatcher_call_returned (dispatcher : Dispatcher)
    (h : dispatcher.call access handleFault task wrapper = .returned task' frame) :
    (dispatcher = .pageFault ∧ frame = wrapper ∧
      handleFault task (wrapper 15) (frameWord wrapper true 3) = (task', true)) ∨
    ∃ action frameUser signal,
      frame = enterHandlerFrame wrapper action frameUser signal false ∧
      ∀ i : Fin 20, task'.thread.signalSavedFrame i = wrapper i := by
  have hraised : ∀ {start : SignalTask μ} {signal : Word},
      raiseSignal access start wrapper signal = .returned task' frame →
      ∃ action frameUser signal,
        frame = enterHandlerFrame wrapper action frameUser signal false ∧
        ∀ i : Fin 20, task'.thread.signalSavedFrame i = wrapper i := by
    intro start signal hraise
    obtain ⟨action, frameUser, hframe, hthread⟩ := raiseSignal_returned access hraise
    exact ⟨action, frameUser, signal, hframe, fun i => by rw [hthread]; rfl⟩
  cases dispatcher with
  | exception vector hasError =>
    simp only [Dispatcher.call, exceptionDispatch] at h
    split at h
    · exact .inr (hraised h)
    · simp at h
  | generalProtection =>
    simp only [Dispatcher.call, generalProtectionDispatch] at h
    split at h
    · exact .inr (hraised h)
    · simp at h
  | pageFault =>
    simp only [Dispatcher.call, pageFaultDispatch] at h
    split at h
    · split at h
      next resolved heq =>
        injection h with htask hframe
        exact .inl ⟨rfl, hframe.symm, by rw [heq, htask]⟩
      · exact .inr (hraised h)
    · simp at h

/-- Bit nine of the CS word keeps a shifted frame from ever being a user
frame. -/
theorem or_interruptFlag_ne_userCs (word : Word) : word ||| 0x200 ≠ USER_CS := by
  intro h
  have hbit := congrArg (fun w : Word => w.getLsbD 9) h
  simp [USER_CS] at hbit

theorem not_faultReachesHandler_of_stubError
        (hunresolved : vector = 14 →
      (handleFault task error user.rsp).2 = false)
    (herror : (exceptionGate vector).hasError = true) (hvector : vector < 32) :
    ¬FaultReachesHandler access handleFault task cpu vector user error := by
  unfold FaultReachesHandler
  dsimp only
  split
  next task' frame hcall =>
    rintro ⟨_, hcs, _⟩
    rw [exceptionStub_exit_stack, herror] at hcs
    rcases dispatcher_call_returned access handleFault _ hcall with
      ⟨hdispatcher, -, hresolved⟩ | ⟨action, frameUser, signal, hframe, -⟩
    · have hpage : vector = 14 := by
        rcases exceptionGate_dispatcher hvector with h | h | ⟨passed, h, -⟩
        · exact h.2
        · rw [hdispatcher] at h
          simp at h
        · rw [hdispatcher] at h
          simp at h
      subst hpage
      rw [exceptionEntry_stack] at hresolved
      have herr : exceptionWrapper 14 user error cpu.stack 15 = error := rfl
      have hrsp : frameWord (exceptionWrapper 14 user error cpu.stack) true 3 = user.rsp := rfl
      rw [herr, hrsp] at hresolved
      have hfalse := hunresolved rfl
      rw [hresolved] at hfalse
      simp at hfalse
    · rw [hframe] at hcs
      exact or_interruptFlag_ne_userCs _ hcs
  · exact not_false

/-- An error code that the stub does not expect shifts the saved words, and
the interrupted stack pointer would have to be the CS selector. -/
theorem not_faultReachesHandler_of_unexpectedError
        (hfits : signalFrameFits user.rsp false = true)
    (herror : (exceptionGate vector).hasError = false) (hpushed : pushesErrorCode vector = true) :
    ¬FaultReachesHandler access handleFault task cpu vector user error := by
  unfold FaultReachesHandler
  dsimp only
  split
  next task' frame hcall =>
    rintro ⟨_, _, _, _, hsaved⟩
    rcases dispatcher_call_returned access handleFault _ hcall with
      ⟨hdispatcher, -⟩ | ⟨action, frameUser, signal, -, hwords⟩
    · rw [exceptionGate_pageFault_hasError hdispatcher] at herror
      simp at herror
    have hwrapper : ∀ i, exceptionWrapper vector user error cpu.stack (15 + i) =
        pushAll [USER_SS, user.rsp, user.rflags, USER_CS, user.rip, error] cpu.stack i := by
      intro i
      rw [exceptionWrapper_above, exceptionWords_error hpushed]
    rw [exceptionEntry_stack] at hwords
    have hflags : user.rflags = USER_CS := by
      have h17 := (hsaved 17).symm.trans (hwords 17)
      exact h17.trans (hwrapper 2)
    have hrsp : user.rsp = user.rflags := by
      have h18 := (hsaved 18).symm.trans (hwords 18)
      exact h18.trans (hwrapper 3)
    rw [hrsp, hflags] at hfits
    revert hfits
    decide
  · exact not_false

/-- With no error code on either side delivery succeeds and the stub returns
into the handler. -/
theorem faultReachesHandler_of_noError (hvector : vector < 32)
    (hready : HandlerReady access task vector user)
    (herror : (exceptionGate vector).hasError = false) (hpushed : pushesErrorCode vector = false) :
    FaultReachesHandler access handleFault task cpu vector user error := by
  have hgate : ∃ passed, (exceptionGate vector).dispatcher = .exception passed false ∧
      exceptionSignal passed = exceptionSignal (BitVec.ofNat 64 vector) := by
    rcases exceptionGate_dispatcher hvector with ⟨_, h⟩ | ⟨_, h⟩ | ⟨passed, h, hsignal⟩
    · subst h
      simp [exceptionGate] at herror
    · subst h
      simp [exceptionGate] at herror
    · exact ⟨passed, by rw [h, herror], hsignal⟩
  obtain ⟨passed, hdispatcher, hsignal⟩ := hgate
  have hwords : ∀ i : Fin 20, (exceptionEntry cpu vector user error).stack i = user.words i := by
    intro i
    rw [exceptionEntry_stack, exceptionWrapper_noError hpushed]
  set wrapper := (exceptionEntry cpu vector user error).stack with hwrapper
  have hcs : wrapper 16 = USER_CS := hwords 16
  have hrsp : wrapper 18 = user.rsp := hwords 18
  have hallowed : deliveryAllowed task (exceptionSignal (BitVec.ofNat 64 vector)) = true := by
    have hrange : ∀ n < 32, exceptionSignal (BitVec.ofNat 64 n) ≠ 0 ∧
        ¬NPK_SIGNAL_MAX < exceptionSignal (BitVec.ofNat 64 n) := by decide
    obtain ⟨hzero, hmax⟩ := hrange vector hvector
    simpa [deliveryAllowed, hready.alive, hready.ring, hready.idle, hmax] using hzero
  have hdelivered : (processDeliverSignalWithInfo access task wrapper
      (exceptionSignal (BitVec.ofNat 64 vector)) none).1 = true :=
    processDeliverSignalWithInfo_of_checks access hallowed hready.valid
      (by rw [hrsp]; exact hready.fits) (by rw [hrsp]; exact hready.copied)
  rcases processDeliverSignalWithInfo_cases access task wrapper
      (exceptionSignal (BitVec.ofNat 64 vector)) none with
    ⟨memory, hfail⟩ | ⟨memory, _, _, _, hok⟩
  · rw [hfail] at hdelivered
    simp at hdelivered
  have hcall : (exceptionGate vector).dispatcher.call access handleFault task wrapper =
      raiseSignal access task wrapper (exceptionSignal (BitVec.ofNat 64 vector)) := by
    have huser : isUserSelector (frameWord wrapper false 1) = true := by
      rw [frameWord]
      simp only [Bool.toNat_false]
      rw [hcs]
      decide
    rw [hdispatcher, Dispatcher.call, exceptionDispatch, if_pos huser, hsignal]
  unfold FaultReachesHandler
  dsimp only
  rw [← hwrapper, hcall, raiseSignal, processDeliverSignal, hok]
  dsimp only
  rw [exceptionStub_exit_stack, herror]
  refine ⟨rfl, rfl, rfl, ?_, fun i => hwords i⟩
  show signalFrameAddress (wrapper 18) _ = _
  rw [hrsp]
  rfl

/-- A fault signal reaches its handler exactly when neither the CPU pushes an
error code for the vector nor the stub removes one. -/
theorem faultReachesHandler_iff (task : SignalTask μ) (cpu : Cpu) (vector : ℕ)
    (user : UserState) (error : Word) (hvector : vector < 32)
    (hready : HandlerReady access task vector user)
    (hunresolved : vector = 14 → (handleFault task error user.rsp).2 = false) :
    FaultReachesHandler access handleFault task cpu vector user error ↔
      pushesErrorCode vector = false ∧ (exceptionGate vector).hasError = false := by
  constructor
  · intro hreaches
    cases herror : (exceptionGate vector).hasError with
    | true =>
      exact absurd hreaches (not_faultReachesHandler_of_stubError access handleFault
        hunresolved herror hvector)
    | false =>
      cases hpushed : pushesErrorCode vector with
      | true =>
        exact absurd hreaches (not_faultReachesHandler_of_unexpectedError access
          handleFault hready.fits herror hpushed)
      | false => exact ⟨rfl, rfl⟩
  · rintro ⟨hpushed, herror⟩
    exact faultReachesHandler_of_noError access handleFault hvector hready herror hpushed

end Property

/-- User code that faults with ordinary flags and a user stack with room. -/
def sampleUser : UserState where
  regs := fun _ => 5
  rip := 0x400123
  rflags := 0x10202
  rsp := 0x7fff0000

def sampleCpu : Cpu where
  regs := fun _ => 0
  stack := fun _ => 0
  gsBase := 0
  kernelGsBase := 0

theorem copyoutAll_flatAccess (memory : Word → Word) (copies : List (Word × List Word)) :
    (copyoutAll flatAccess memory copies).2 = true := by
  induction copies generalizing memory with
  | nil => rfl
  | cons copy copies ih =>
    rw [copyoutAll]
    exact ih _

theorem sampleTask_handlerReady (vector : ℕ) :
    HandlerReady flatAccess sampleTask vector sampleUser := by
  have hvalid : signalActionHandlerValid sampleAction = true := by decide
  exact ⟨rfl, rfl, rfl, hvalid, by decide, copyoutAll_flatAccess _ _⟩

/-- An invalid opcode (vector 6) is delivered to its handler. -/
theorem faultReachesHandler_invalidOpcode :
    FaultReachesHandler flatAccess (fun task _ _ => (task, false)) sampleTask sampleCpu 6
      sampleUser 0 :=
  (faultReachesHandler_iff flatAccess _ sampleTask sampleCpu 6 sampleUser 0 (by decide)
    (sampleTask_handlerReady 6) (by decide)).mpr (by decide)

/-- A page fault that no mapping resolves, in a process with a handler for the
signal: the stub returns to a frame whose CS is not the user selector. -/
theorem pageFault_misses_handler :
    HandlerReady flatAccess sampleTask 14 sampleUser ∧
      ¬FaultReachesHandler flatAccess (fun task _ _ => (task, false)) sampleTask sampleCpu
        14 sampleUser 6 :=
  ⟨sampleTask_handlerReady 14,
    not_faultReachesHandler_of_stubError flatAccess _ (fun _ => rfl) rfl (by decide)⟩

end NPKernel
