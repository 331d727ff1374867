import NPKernel.EntryStubs
import NPKernel.PageTables

/-!
# Threads and processes

The records of `include/npk/process.h`, restricted to the fields that the
modelled functions read or write.  A saved frame is a location rather than an
address: the twenty words at the top of a thread's kernel stack, where syscall
entry, the timer interrupt and the creation routines all put their frame, or
the frame that `materialize_context_frame` builds below the saved stack
pointer.
-/

namespace NPKernel

open RegisterStack

abbrev ThreadId := Fin 256
abbrev ProcId := Fin 128

def NPK_SIGNAL_MAX : Word := 64
def NPK_SIGNAL_QUEUE_MAX : ℕ := 32
def NPK_USER_MIN : Word := 0x10000

/-- The check of a range whose bounds are words. -/
def vmmIsUserRange (address length : Word) : Bool := Vm.vmmIsUserRange address.toNat length.toNat

inductive ThreadState where
  | unused | ready | running | blocked | zombie
  deriving DecidableEq, Repr

/-- `saved_frame_kind`: an interrupt frame (0) or a syscall frame (1). -/
inductive FrameKind where
  | interrupt | syscall
  deriving DecidableEq, Repr

inductive FramePtr where
  | stackTop (thread : ThreadId)
  | belowContext (thread : ThreadId)
  deriving DecidableEq, Repr

structure CpuContext where
  rip : Word
  rsp : Word
  rflags : Word
  regs : RegisterFile
  cr3 : Word

def CpuContext.zero : CpuContext where
  rip := 0
  rsp := 0
  rflags := 0
  regs := fun _ => 0
  cr3 := 0

/-- `npk_sigaction_t`; only the first word of the mask array is ever read. -/
structure SigAction where
  handler : Word
  flags : Word
  restorer : Word
  mask : Word
  deriving DecidableEq, Repr

def SigAction.zero : SigAction where
  handler := 0
  flags := 0
  restorer := 0
  mask := 0

structure SignalInfo where
  signal : Word
  code : Word
  senderPid : Word
  senderUid : BitVec 32
  value : Word
  deriving DecidableEq, Repr

def SignalInfo.zero : SignalInfo where
  signal := 0
  code := 0
  senderPid := 0
  senderUid := 0
  value := 0

structure Thread where
  tid : ℕ
  state : ThreadState
  privilegeRing : ℕ
  context : CpuContext
  fsBase : Word
  gsBase : Word
  savedInterruptFrame : Option FramePtr
  savedFrameKind : FrameKind
  signalInflight : Bool
  signalFrameUser : Word
  signalRestorer : Word
  signalNumber : Word
  signalBlocked : Word
  signalPending : Word
  signalSavedMask : Word
  signalQueue : ℕ → SignalInfo
  signalQueueHead : ℕ
  signalQueueTail : ℕ
  signalQueueCount : ℕ
  signalSavedFrame : Fin 20 → Word
  futexWaiting : Bool
  futexResult : Word
  owner : Option ProcId

def Thread.zero : Thread where
  tid := 0
  state := .unused
  privilegeRing := 0
  context := CpuContext.zero
  fsBase := 0
  gsBase := 0
  savedInterruptFrame := none
  savedFrameKind := .interrupt
  signalInflight := false
  signalFrameUser := 0
  signalRestorer := 0
  signalNumber := 0
  signalBlocked := 0
  signalPending := 0
  signalSavedMask := 0
  signalQueue := fun _ => SignalInfo.zero
  signalQueueHead := 0
  signalQueueTail := 0
  signalQueueCount := 0
  signalSavedFrame := fun _ => 0
  futexWaiting := false
  futexResult := 0
  owner := none

structure Process where
  pid : ℕ
  parentPid : ℕ
  threadCount : ℕ
  alive : Bool
  exitStatus : Word
  groupExiting : Bool
  waitActive : Bool
  waitTarget : ℤ
  waitResult : Word
  pendingReapPid : ℕ
  waitWoken : Bool
  mainThread : Option ThreadId
  signalActions : ℕ → SigAction

def Process.zero : Process where
  pid := 0
  parentPid := 0
  threadCount := 0
  alive := false
  exitStatus := 0
  groupExiting := false
  waitActive := false
  waitTarget := 0
  waitResult := 0
  pendingReapPid := 0
  waitWoken := false
  mainThread := none
  signalActions := fun _ => SigAction.zero

/-- `syscall_frame_t`: the registers by name and the IRET words. -/
structure SyscallFrame where
  regs : RegisterFile
  iret : IretFrame

end NPKernel
