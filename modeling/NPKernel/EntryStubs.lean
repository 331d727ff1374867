import NPKernel.MachineWords
import NPKernel.RegisterStack

/-!
# The assembly entry and exit sequences

The stubs of `arch/x86_64/entry.asm` are written here as instruction lists and
executed on a small CPU: the fifteen general-purpose registers that the stubs
save, the stack from RSP upwards, and the two GS bases.  The CPU's own part of
an interrupt (the pushed IRET words, the error code of some vectors) is kept
apart from the stubs, because for two vectors they do not agree.
-/

namespace NPKernel

open RegisterStack

def KERNEL_CS : Word := 0x08
def USER_CS : Word := 0x23
def USER_SS : Word := 0x1b

/-- The test `(cs & 3) == 3` of the dispatchers. -/
def isUserSelector (cs : Word) : Bool :=
  cs &&& 3 == 3

inductive Reg where
  | rax | rbx | rcx | rdx | rsi | rdi | rbp
  | r8 | r9 | r10 | r11 | r12 | r13 | r14 | r15
  deriving DecidableEq, Repr

abbrev RegisterFile := Reg → Word

structure IretFrame where
  rip : Word
  cs : Word
  rflags : Word
  rsp : Word
  ss : Word
  deriving DecidableEq, Repr

def iretFrame (stack : Stack Word) : IretFrame where
  rip := stack 0
  cs := stack 1
  rflags := stack 2
  rsp := stack 3
  ss := stack 4

structure Cpu where
  regs : RegisterFile
  stack : Stack Word
  gsBase : Word
  kernelGsBase : Word

inductive Instr where
  | push (r : Reg)
  | pushWord (word : Word)
  | pop (r : Reg)
  | discard
  | swapgs
  | swapgsIfUser (scratch : Reg) (slot : ℕ)
  deriving DecidableEq, Repr

namespace Cpu

def swapgs (cpu : Cpu) : Cpu :=
  { cpu with gsBase := cpu.kernelGsBase, kernelGsBase := cpu.gsBase }

def exec (cpu : Cpu) : Instr → Cpu
  | .push r => { cpu with stack := push (cpu.regs r) cpu.stack }
  | .pushWord word => { cpu with stack := push word cpu.stack }
  | .pop r =>
    { cpu with
      regs := Function.update cpu.regs r (cpu.stack 0)
      stack := drop 1 cpu.stack }
  | .discard => { cpu with stack := drop 1 cpu.stack }
  | .swapgs => cpu.swapgs
  | .swapgsIfUser scratch slot =>
    let loaded := { cpu with
      regs := Function.update cpu.regs scratch (cpu.stack slot) }
    if cpu.stack slot &&& 3 = 0 then loaded else loaded.swapgs

def run (cpu : Cpu) (code : List Instr) : Cpu :=
  code.foldl exec cpu

@[simp]
theorem run_nil (cpu : Cpu) : cpu.run [] = cpu := rfl

@[simp]
theorem run_cons (cpu : Cpu) (instr : Instr) (code : List Instr) :
    cpu.run (instr :: code) = (cpu.exec instr).run code := rfl

theorem run_append (cpu : Cpu) (first second : List Instr) :
    cpu.run (first ++ second) = (cpu.run first).run second :=
  List.foldl_append

theorem run_map_push (rs : List Reg) (cpu : Cpu) :
    cpu.run (rs.map .push) =
      { cpu with stack := pushAll (rs.map cpu.regs) cpu.stack } := by
  induction rs generalizing cpu with
  | nil => rfl
  | cons r rs ih =>
    rw [List.map_cons, run_cons, ih]
    rfl

theorem run_map_pop (rs : List Reg) (cpu : Cpu) :
    cpu.run (rs.map .pop) =
      { cpu with
        regs := (popAll rs cpu.regs cpu.stack).1
        stack := (popAll rs cpu.regs cpu.stack).2 } := by
  induction rs generalizing cpu with
  | nil => rfl
  | cons r rs ih =>
    rw [List.map_cons, run_cons, ih]
    rfl

end Cpu

/-- The order in which `SAVE_EXCEPTION_GPRS` and the interrupt stubs push. -/
def gprs : List Reg :=
  [.rax, .rbx, .rcx, .rdx, .rsi, .rdi, .rbp, .r8, .r9, .r10, .r11, .r12, .r13, .r14, .r15]

theorem gprs_nodup : gprs.Nodup := by decide

theorem mem_gprs (r : Reg) : r ∈ gprs := by
  cases r <;> decide

/-- The order in which an interrupt frame is reloaded: slot zero is R15. -/
def interruptOrder : List Reg := gprs.reverse

/-- The order in which a syscall frame is reloaded: slot zero is RAX. -/
def syscallOrder : List Reg := gprs

theorem interruptOrder_nodup : interruptOrder.Nodup := by decide

theorem mem_interruptOrder (r : Reg) : r ∈ interruptOrder := by
  cases r <;> decide

theorem mem_syscallOrder (r : Reg) : r ∈ syscallOrder := mem_gprs r

def interruptSlot (r : Reg) : ℕ := interruptOrder.idxOf r

def syscallSlot (r : Reg) : ℕ := syscallOrder.idxOf r

def saveGprs : List Instr := gprs.map .push

def restoreGprs : List Instr := interruptOrder.map .pop

def restoreSyscallGprs : List Instr := syscallOrder.map .pop

/-! ## Exception stubs -/

/-- The C function an exception stub calls, with the arguments it loads. -/
inductive Dispatcher where
  | exception (vector : Word) (hasError : Bool)
  | generalProtection
  | pageFault
  deriving DecidableEq, Repr

/-- `hasError` is the stub's own belief that the CPU pushed an error code. -/
structure ExceptionStub where
  dispatcher : Dispatcher
  hasError : Bool
  deriving DecidableEq, Repr

def exceptionStubNoError (vector : Word) : ExceptionStub where
  dispatcher := .exception vector false
  hasError := false

def exceptionStubError (vector : Word) : ExceptionStub where
  dispatcher := .exception vector true
  hasError := true

def isrStubDefault : ExceptionStub := exceptionStubNoError 255

/-- The gates that `idt_init` installs for the exception vectors. -/
def exceptionGate : ℕ → ExceptionStub
  | 0 => exceptionStubNoError 0
  | 1 => exceptionStubNoError 1
  | 2 => exceptionStubNoError 2
  | 3 => exceptionStubNoError 3
  | 4 => exceptionStubNoError 4
  | 5 => exceptionStubNoError 5
  | 6 => exceptionStubNoError 6
  | 7 => exceptionStubNoError 7
  | 8 => exceptionStubError 8
  | 9 => exceptionStubNoError 9
  | 10 => exceptionStubError 10
  | 11 => exceptionStubError 11
  | 12 => exceptionStubError 12
  | 13 => { dispatcher := .generalProtection, hasError := true }
  | 14 => { dispatcher := .pageFault, hasError := true }
  | 16 => exceptionStubNoError 16
  | 17 => exceptionStubError 17
  | 18 => exceptionStubError 18
  | 19 => exceptionStubNoError 19
  | 20 => exceptionStubNoError 20
  | 21 => exceptionStubError 21
  | _ => isrStubDefault

/-- The x86-64 rule for which vectors the CPU pushes an error code. -/
def pushesErrorCode (vector : ℕ) : Bool :=
  vector ∈ [8, 10, 11, 12, 13, 14, 17, 21, 29, 30]

namespace ExceptionStub

/-- The word the stub tests for the privilege level: `[rsp + 128]` or
`[rsp + 136]`. -/
def csSlot (stub : ExceptionStub) : ℕ :=
  if stub.hasError then 17 else 16

def entry (stub : ExceptionStub) : List Instr :=
  saveGprs ++ [.swapgsIfUser .rax stub.csSlot]

def exit (stub : ExceptionStub) : List Instr :=
  [.swapgsIfUser .rax stub.csSlot] ++ restoreGprs ++ (if stub.hasError then [.discard] else [])

end ExceptionStub

def interruptWords (interrupted : IretFrame) (error : Option Word) : List Word :=
  [interrupted.ss, interrupted.rsp, interrupted.rflags, interrupted.cs,
    interrupted.rip] ++ error.toList

/-! ## Timer, device and syscall stubs -/

def irqTimerExit : List Instr :=
  [.swapgsIfUser .rcx 16] ++ restoreGprs

def restoreInterruptFrame : List Instr := restoreGprs

def restoreUserFrameFromKernel : List Instr :=
  .swapgs :: restoreInterruptFrame

def restoreSyscallFrameFromKernel : List Instr :=
  .swapgs :: restoreSyscallGprs

end NPKernel
