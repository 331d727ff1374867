import NPKernel.RunningThread

/-!
# Threads and the address space of their process

A process counts its live threads and names one of them as its main thread, and
every live thread of a process has the root of the process in its saved CR3.
`process_exec_current` replaces the root, but it neither ends the other threads
of the caller nor changes their saved CR3, and it then activates the main
thread.  The facts survive an exec whose caller is the only live thread.
-/

namespace NPKernel

open RegisterStack GuardedRuns

namespace Kernel

variable {process : ProcId} {thread : ThreadId} {before ended : Kernel} {event : Event}
  {slot : ThreadSlot} {record : ProcessSlot}

def KernelThread (thread : ThreadId) : Prop :=
  thread = 0 ∨ thread = bspIdleThread

def liveThreads (kernel : Kernel) (process : ProcId) : Finset ThreadId :=
  Finset.univ.filter fun thread =>
    (kernel.threads thread).owner = some process ∧ (kernel.threads thread).state.live = true

variable {kernel after : Kernel}

@[simp]
theorem mem_liveThreads :
    thread ∈ kernel.liveThreads process ↔ (kernel.threads thread).owner = some process ∧
        (kernel.threads thread).state.live = true := by
  simp [liveThreads]

/-- What `GroupsSound` says without the saved CR3: it survives every exec. -/
structure GroupsCounted (kernel : Kernel) : Prop where
  kernelThread : ∀ thread, KernelThread thread →
    (kernel.threads thread).owner = some kernelProcess ∧
      (kernel.threads thread).state ≠ .unused ∧ InKernel (kernel.threads thread)
  outside : ∀ thread, (kernel.threads thread).owner = some kernelProcess → KernelThread thread
  nextPid : 0 < kernel.nextPid
  used : ∀ process, (kernel.processes process).alive = true → (kernel.processes process).pid ≠ 0
  member : ∀ thread, ¬KernelThread thread → (kernel.threads thread).state.live = true →
    ∃ process, process ≠ kernelProcess ∧ (kernel.threads thread).owner = some process ∧
      (kernel.processes process).alive = true
  count : ∀ process, process ≠ kernelProcess → (kernel.processes process).alive = true →
    (kernel.processes process).threadCount = (kernel.liveThreads process).card
  boot : (kernel.processes kernelProcess).alive = true →
    (kernel.processes kernelProcess).threadCount = 1
  main : ∀ process, (kernel.processes process).alive = true →
    ∃ main, (kernel.processes process).mainThread = some main ∧ main ∈ kernel.liveThreads process

def RootsShared (kernel : Kernel) : Prop :=
  ∀ process, process ≠ kernelProcess → ∀ thread ∈ kernel.liveThreads process,
    (kernel.threads thread).context.cr3 = (kernel.processes process).addressSpaceRoot

structure GroupsSound (kernel : Kernel) : Prop extends GroupsCounted kernel where
  roots : kernel.RootsShared

/-- No thread or process is created or ends, and the live ones keep what the
counts and the main threads depend on. -/
structure SameCounts (before after : Kernel) : Prop where
  live : ∀ thread, (after.threads thread).state.live = (before.threads thread).state.live
  owner : ∀ thread, (before.threads thread).state.live = true →
    (after.threads thread).owner = (before.threads thread).owner
  kernelThread : ∀ thread, KernelThread thread →
    (after.threads thread).owner = (before.threads thread).owner ∧
      ((after.threads thread).state = .unused ↔ (before.threads thread).state = .unused) ∧
      (InKernel (before.threads thread) → InKernel (after.threads thread))
  outside : ∀ thread, (after.threads thread).owner = some kernelProcess →
    (before.threads thread).owner = some kernelProcess
  alive : ∀ process, (after.processes process).alive = (before.processes process).alive
  process : ∀ process, (before.processes process).alive = true →
    (after.processes process).pid = (before.processes process).pid ∧
      (after.processes process).threadCount = (before.processes process).threadCount ∧
      (after.processes process).mainThread = (before.processes process).mainThread
  nextPid : before.nextPid ≤ after.nextPid

structure SameGroups (before after : Kernel) : Prop extends SameCounts before after where
  cr3 : ∀ thread, (before.threads thread).state.live = true →
    (after.threads thread).context.cr3 = (before.threads thread).context.cr3
  root : ∀ process, (before.processes process).alive = true →
    (after.processes process).addressSpaceRoot = (before.processes process).addressSpaceRoot

namespace GroupsCounted

variable {kernel : Kernel} (h : kernel.GroupsCounted)

include h

theorem owner_of_kernelThread (howner : (kernel.threads thread).owner = some process)
    (hprocess : process ≠ kernelProcess) : ¬KernelThread thread := by
  intro hkernel
  have hkernelOwner := (h.kernelThread thread hkernel).1
  rw [howner] at hkernelOwner
  exact hprocess (Option.some.inj hkernelOwner)

theorem alive_of_live (hprocess : process ≠ kernelProcess)
    (hmember : thread ∈ kernel.liveThreads process) : (kernel.processes process).alive = true := by
  rw [mem_liveThreads] at hmember
  obtain ⟨owner, -, howner, halive⟩ :=
    h.member thread (h.owner_of_kernelThread hmember.1 hprocess) hmember.2
  rw [hmember.1] at howner
  cases howner
  exact halive

theorem owner_of_running (hring : kernel.running.privilegeRing = 3)
    (hlive : kernel.running.state.live = true) (howner : kernel.processCurrent = some process) :
    process ≠ kernelProcess ∧ (kernel.processes process).alive = true := by
  have hother : ¬KernelThread kernel.current := by
    intro hkernel
    have hzero := (h.kernelThread kernel.current hkernel).2.2.1
    rw [show (kernel.threads kernel.current).privilegeRing = 3 from hring] at hzero
    cases hzero
  obtain ⟨owner, hne, howner', halive⟩ := h.member kernel.current hother hlive
  have hsame := howner.symm.trans howner'
  cases hsame
  exact ⟨hne, halive⟩

end GroupsCounted

theorem SameCounts.liveThreads (hsame : SameCounts before after)
    (process : ProcId) : after.liveThreads process = before.liveThreads process := by
  ext thread
  simp only [mem_liveThreads, hsame.live]
  constructor
  · rintro ⟨howner, hlive⟩
    exact ⟨hsame.owner thread hlive ▸ howner, hlive⟩
  · rintro ⟨howner, hlive⟩
    exact ⟨(hsame.owner thread hlive).trans howner, hlive⟩

theorem GroupsCounted.afterSame (h : kernel.GroupsCounted)
    (hsame : SameCounts kernel after) : after.GroupsCounted := by
  refine ⟨?_, fun thread howner => h.outside thread (hsame.outside thread howner),
    h.nextPid.trans_le hsame.nextPid, ?_, ?_, ?_, ?_, ?_⟩
  · intro thread hthread
    obtain ⟨howner, hused, hring⟩ := h.kernelThread thread hthread
    obtain ⟨hsameOwner, hsameUsed, hsameRing⟩ := hsame.kernelThread thread hthread
    exact ⟨hsameOwner.trans howner, fun hunused => hused (hsameUsed.mp hunused), hsameRing hring⟩
  · intro process halive
    rw [hsame.alive] at halive
    rw [(hsame.process process halive).1]
    exact h.used process halive
  · intro thread hthread hlive
    rw [hsame.live] at hlive
    obtain ⟨process, hprocess, howner, halive⟩ := h.member thread hthread hlive
    exact ⟨process, hprocess, (hsame.owner thread hlive).trans howner,
      (hsame.alive process).trans halive⟩
  · intro process hprocess halive
    rw [hsame.alive] at halive
    rw [hsame.liveThreads, (hsame.process process halive).2.1]
    exact h.count process hprocess halive
  · intro halive
    rw [hsame.alive] at halive
    exact (hsame.process _ halive).2.1.trans (h.boot halive)
  · intro process halive
    rw [hsame.alive] at halive
    rw [hsame.liveThreads, (hsame.process process halive).2.2]
    exact h.main process halive

theorem RootsShared.afterSame (hroots : kernel.RootsShared)
    (h : kernel.GroupsCounted) (hsame : SameGroups kernel after) : after.RootsShared := by
  intro process hprocess thread hmember
  rw [hsame.liveThreads] at hmember
  have halive := h.alive_of_live hprocess hmember
  rw [hsame.cr3 thread (mem_liveThreads.mp hmember).2, hroots process hprocess thread hmember,
    hsame.root process halive]

/-! ## Changes that leave the groups alone -/

theorem SameGroups.of_sched (h : SchedStep before after)
    (hring : ∀ thread, InKernel (before.threads thread) → InKernel (after.threads thread)) :
    SameGroups before after where
  live := h.live
  owner thread _ := h.owner thread
  kernelThread thread _ := ⟨h.owner thread, h.unused thread, hring thread⟩
  outside thread howner := (h.owner thread).symm.trans howner
  alive := h.processField (fun slot => slot.alive) (fun _ => rfl)
  process process _ :=
    ⟨h.processField (fun slot => slot.pid) (fun _ => rfl) process,
      h.processField (fun slot => slot.threadCount) (fun _ => rfl) process,
      h.processField (fun slot => slot.mainThread) (fun _ => rfl) process⟩
  nextPid := h.nextPid.ge
  cr3 thread _ := h.field (fun slot => slot.context.cr3) (fun _ => rfl) thread
  root process _ := h.processField (fun slot => slot.addressSpaceRoot) (fun _ => rfl) process

theorem SameGroups.of_personal
    (h : PersonalChange event before after) : SameGroups before after := by
  have hstate := h.field (fun slot => slot.state) (fun _ => rfl)
  have howner := h.field (fun slot => slot.owner) (fun _ => rfl)
  have hring := h.field (fun slot => (slot.privilegeRing, slot.userRing)) (fun _ => rfl)
  have hcr3 := h.field (fun slot => slot.context.cr3) (fun _ => rfl)
  obtain ⟨changed, slot, rfl, -⟩ := h.setThread
  refine ⟨⟨?_, fun thread _ => howner thread, ?_, fun thread h => (howner thread).symm.trans h,
    fun _ => rfl, fun _ _ => ⟨rfl, rfl, rfl⟩, le_rfl⟩, fun thread _ => hcr3 thread, fun _ _ => rfl⟩
  · intro thread
    exact congrArg ThreadState.live (hstate thread)
  · intro thread _
    refine ⟨howner thread, by rw [hstate thread], ?_⟩
    have hboth := hring thread
    simp only [Prod.mk.injEq] at hboth
    intro hkernel
    exact ⟨hboth.1.trans hkernel.1, hboth.2.trans hkernel.2⟩

theorem SameGroups.of_action (kernel : Kernel) (process : ProcId) (signal : Word)
    (action : SigAction) : SameGroups kernel (kernel.setSignalAction process signal action) := by
  have hslot : ∀ other, ∃ actions, (kernel.setSignalAction process signal action).processes other =
      { kernel.processes other with signalActions := actions } := by
    intro other
    rw [setSignalAction, setProcess_processes]
    split
    next heq => exact ⟨_, by rw [heq]⟩
    · exact ⟨_, rfl⟩
  refine ⟨⟨fun _ => rfl, fun _ _ => rfl, fun _ _ => ⟨rfl, Iff.rfl, id⟩, fun _ => id, ?_, ?_,
    le_rfl⟩, fun _ _ => rfl, ?_⟩ <;>
  · intro other
    obtain ⟨actions, heq⟩ := hslot other
    simp [heq]

/-- Slots are cleared that no live thread and no living process has. -/
theorem SameGroups.of_cleared (hpid : kernel.nextPid ≤ after.nextPid)
    (hthreads : ∀ thread, after.threads thread = kernel.threads thread ∨
      after.threads thread = ThreadSlot.zero ∧ (kernel.threads thread).state.live = false ∧
        ¬KernelThread thread)
    (hprocesses : ∀ process, after.processes process = kernel.processes process ∨
      after.processes process = ProcessSlot.zero ∧ (kernel.processes process).alive = false) :
    SameGroups kernel after := by
  have hlive : ∀ thread, (kernel.threads thread).state.live = true →
      after.threads thread = kernel.threads thread := by
    intro thread hlive
    refine (hthreads thread).resolve_right ?_
    rintro ⟨-, hdead, -⟩
    rw [hlive] at hdead
    cases hdead
  have halive : ∀ process, (kernel.processes process).alive = true →
      after.processes process = kernel.processes process := by
    intro process halive
    refine (hprocesses process).resolve_right ?_
    rintro ⟨-, hdead⟩
    rw [halive] at hdead
    cases hdead
  refine ⟨⟨?_, fun thread h => by rw [hlive thread h], ?_, ?_, ?_, fun process h => by
    rw [halive process h]; exact ⟨rfl, rfl, rfl⟩, hpid⟩, fun thread h => by rw [hlive thread h],
    fun process h => by rw [halive process h]⟩
  · intro thread
    rcases hthreads thread with heq | ⟨heq, hdead, -⟩
    · rw [heq]
    · rw [heq, hdead]
      rfl
  · intro thread hkernel
    rcases hthreads thread with heq | ⟨-, -, hother⟩
    · rw [heq]
      exact ⟨rfl, Iff.rfl, id⟩
    · exact absurd hkernel hother
  · intro thread howner
    rcases hthreads thread with heq | ⟨heq, -⟩
    · rwa [heq] at howner
    · rw [heq] at howner
      cases howner
  · intro process
    rcases hprocesses process with heq | ⟨heq, hdead⟩
    · rw [heq]
    · rw [heq, hdead]
      rfl

namespace GroupsCounted

variable {kernel : Kernel} (h : kernel.GroupsCounted)

include h

theorem not_kernelThread_of_unused (hunused : (kernel.threads thread).state = .unused) :
    ¬KernelThread thread :=
  fun hkernel => (h.kernelThread thread hkernel).2.1 hunused

theorem not_alive_of_free (hfree : (kernel.processes process).pid = 0) :
    (kernel.processes process).alive = false := by
  by_contra halive
  exact h.used process (by simpa using halive) hfree

theorem liveThreads_of_dead (hprocess : process ≠ kernelProcess)
    (hdead : (kernel.processes process).alive = false)
    (howner : (kernel.threads thread).owner = some process) :
    (kernel.threads thread).state.live = false := by
  by_contra hlive
  have hthread := h.owner_of_kernelThread howner hprocess
  obtain ⟨owner, -, howner', halive⟩ := h.member thread hthread (by simpa using hlive)
  rw [howner] at howner'
  cases howner'
  rw [hdead] at halive
  cases halive

theorem liveThreads_eq_empty (hprocess : process ≠ kernelProcess)
    (hdead : (kernel.processes process).alive = false) : kernel.liveThreads process = ∅ := by
  refine Finset.eq_empty_of_forall_notMem ?_
  intro thread hmember
  rw [mem_liveThreads] at hmember
  have hlive := h.liveThreads_of_dead hprocess hdead hmember.1
  rw [hmember.2] at hlive
  cases hlive

end GroupsCounted

/-! ## Created and ended threads -/

namespace GroupsCounted

variable {kernel after : Kernel}

theorem liveThreads_of_created (hunused : (kernel.threads thread).state = .unused)
    (hthreads : after.threads = Function.update kernel.threads thread slot)
    (hslot : slot.owner = some process ∧ slot.state.live = true) :
    after.liveThreads process = insert thread (kernel.liveThreads process) ∧
      ∀ other, other ≠ process → after.liveThreads other = kernel.liveThreads other := by
  have hnotLive : (kernel.threads thread).state.live = false := by rw [hunused]; rfl
  constructor
  · ext other
    rw [Finset.mem_insert, mem_liveThreads, mem_liveThreads, hthreads, Function.update_apply]
    split
    next heq => simp [heq, hslot.1, hslot.2]
    next hne => simp [hne]
  · intro other hother
    ext member
    rw [mem_liveThreads, mem_liveThreads, hthreads, Function.update_apply]
    split
    next heq =>
      subst heq
      simp [hnotLive, hslot.1, hother.symm]
    · rfl

theorem afterCreated (h : kernel.GroupsCounted)
    (hunused : (kernel.threads thread).state = .unused) (hprocess : process ≠ kernelProcess)
    (hthreads : after.threads = Function.update kernel.threads thread slot)
    (hprocesses : after.processes = Function.update kernel.processes process record)
    (hpid : kernel.nextPid ≤ after.nextPid)
    (hslot : slot.owner = some process ∧ slot.state.live = true)
    (hrecord : record.alive = true ∧ record.pid ≠ 0)
    (hcount : record.threadCount = (kernel.liveThreads process).card + 1)
    (hmain : record.mainThread = some thread ∨
      ∃ main ∈ kernel.liveThreads process, record.mainThread = some main) :
    after.GroupsCounted := by
  obtain ⟨hinsert, hothers⟩ := liveThreads_of_created hunused hthreads hslot
  have hnotMem : thread ∉ kernel.liveThreads process := by
    simp [hunused, ThreadState.live]
  have hkernel := h.not_kernelThread_of_unused hunused
  refine ⟨?_, ?_, h.nextPid.trans_le hpid, ?_, ?_, ?_, ?_, ?_⟩
  · intro other hother
    have hne : other ≠ thread := by
      rintro rfl
      exact hkernel hother
    rw [hthreads, Function.update_of_ne hne]
    exact h.kernelThread other hother
  · intro other
    rw [hthreads, Function.update_apply]
    split
    · rw [hslot.1]
      exact fun heq => absurd (Option.some.inj heq) hprocess
    · exact h.outside other
  · intro other
    rw [hprocesses, Function.update_apply]
    split
    · exact fun _ => hrecord.2
    · exact h.used other
  · intro other hother
    rw [hthreads, hprocesses, Function.update_apply]
    split
    · intro _
      exact ⟨process, hprocess, hslot.1, by simp [hrecord.1]⟩
    · intro hlive
      obtain ⟨owner, howner, hmember, halive⟩ := h.member other hother hlive
      refine ⟨owner, howner, hmember, ?_⟩
      by_cases heq : owner = process
      · rw [heq, Function.update_self]
        exact hrecord.1
      · simpa [heq] using halive
  · intro other hother
    by_cases heq : other = process
    · subst heq
      intro _
      rw [hinsert, Finset.card_insert_of_notMem hnotMem, hprocesses, Function.update_self, hcount]
    · rw [hothers other heq, hprocesses, Function.update_of_ne heq]
      exact h.count other hother
  · rw [hprocesses, Function.update_of_ne hprocess.symm]
    exact h.boot
  · intro other
    by_cases heq : other = process
    · subst heq
      intro _
      rw [hinsert, hprocesses, Function.update_self]
      rcases hmain with hnew | ⟨main, hmember, hmain⟩
      · exact ⟨thread, hnew, Finset.mem_insert_self _ _⟩
      · exact ⟨main, hmain, Finset.mem_insert_of_mem hmember⟩
    · rw [hothers other heq, hprocesses, Function.update_of_ne heq]
      exact h.main other

variable {ends : ThreadId → Prop}

theorem live_of_kept (hended : EndStep ends kernel after) (thread : ThreadId) :
    (after.threads thread).state.live = true ↔
      ¬ends thread ∧ (kernel.threads thread).state.live = true := by
  by_cases hends : ends thread
  · simp [hends, hended.zombie hends, ThreadState.live]
  · simp [hends, (hended.kept thread hends).live]

theorem kernelThread_of_ended (h : kernel.GroupsCounted)
    (hended : EndStep ends kernel after) (thread : ThreadId) (hthread : KernelThread thread) :
    (after.threads thread).owner = some kernelProcess ∧
      (after.threads thread).state ≠ .unused ∧ InKernel (after.threads thread) := by
  obtain ⟨howner, hused, hring⟩ := h.kernelThread thread hthread
  refine ⟨(hended.owner thread).trans howner, ?_, ?_⟩
  · by_cases hends : ends thread
    · rw [hended.zombie hends]
      decide
    · exact fun hunused => hused ((hended.kept thread hends).unused.mp hunused)
  · have hboth := hended.field (fun slot => (slot.privilegeRing, slot.userRing))
      (fun _ _ => rfl) (fun _ => rfl) thread
    simp only [Prod.mk.injEq] at hboth
    exact ⟨hboth.1.trans hring.1, hboth.2.trans hring.2⟩

theorem afterEnded (h : kernel.GroupsCounted) (hended : EndStep ends kernel ended)
    (hends : ∀ thread, ends thread → (kernel.threads thread).owner = some process)
    (halive : record.alive = true → process ≠ kernelProcess ∧ record.pid ≠ 0 ∧
      record.threadCount = (ended.liveThreads process).card ∧
      ∃ main ∈ ended.liveThreads process, record.mainThread = some main)
    (hdead : record.alive = false → ∀ thread ∈ kernel.liveThreads process,
      ¬KernelThread thread → ends thread) :
    (ended.setProcess process record).GroupsCounted := by
  have hpid : ended.nextPid = kernel.nextPid := by rw [hended.rest]
  have hothers : ∀ other, other ≠ process → ended.liveThreads other = kernel.liveThreads other := by
    intro other hother
    ext thread
    rw [mem_liveThreads, mem_liveThreads, hended.owner, live_of_kept hended]
    constructor
    · rintro ⟨howner, -, hlive⟩
      exact ⟨howner, hlive⟩
    · rintro ⟨howner, hlive⟩
      refine ⟨howner, fun hend => ?_, hlive⟩
      rw [hends thread hend] at howner
      exact hother (Option.some.inj howner).symm
  refine ⟨?_, fun thread howner => h.outside thread ((hended.owner thread).symm.trans howner),
    hpid.symm ▸ h.nextPid, ?_, ?_, ?_, ?_, ?_⟩
  · intro thread hthread
    exact h.kernelThread_of_ended hended thread hthread
  · intro other
    rw [setProcess_processes, hended.processes]
    split
    · exact fun hrecord => (halive hrecord).2.1
    · exact h.used other
  · intro thread hthread hafter
    obtain ⟨hkept, hlive⟩ := (live_of_kept hended thread).mp hafter
    obtain ⟨owner, hkernel, howner, hownerAlive⟩ := h.member thread hthread hlive
    refine ⟨owner, hkernel, (hended.owner thread).trans howner, ?_⟩
    rw [setProcess_processes, hended.processes]
    split
    next heq =>
      subst heq
      by_contra hnot
      exact hkept (hdead (by simpa using hnot) thread (mem_liveThreads.mpr ⟨howner, hlive⟩) hthread)
    · exact hownerAlive
  · intro other hother
    rw [setProcess_processes, hended.processes]
    split
    next heq =>
      subst heq
      exact fun hrecord => (halive hrecord).2.2.1
    next hne =>
      intro hotherAlive
      exact (h.count other hother hotherAlive).trans (congrArg Finset.card (hothers other hne).symm)
  · rw [setProcess_processes, hended.processes]
    split
    next heq => exact fun hrecord => absurd heq.symm (halive hrecord).1
    · exact h.boot
  · intro other
    rw [setProcess_processes, hended.processes]
    split
    next heq =>
      subst heq
      intro hrecord
      obtain ⟨main, hmember, hmain⟩ := (halive hrecord).2.2.2
      exact ⟨main, hmain, hmember⟩
    next hne =>
    intro hotherAlive
    obtain ⟨main, hmain, hmember⟩ := h.main other hotherAlive
    rw [← hothers other hne] at hmember
    exact ⟨main, hmain, hmember⟩

theorem firstLive_some (hlive : thread ∈ kernel.liveThreads process) (hzero : thread ≠ 0) :
    ∃ main ∈ kernel.liveThreads process, kernel.firstLive process = some main := by
  rw [mem_liveThreads] at hlive
  cases hfound : kernel.firstLive process with
  | none =>
    have hnone := List.find?_eq_none.mp hfound thread (mem_threadIds thread)
    simp [hzero, hlive.1, hlive.2] at hnone
  | some main =>
    have hmain := List.find?_some hfound
    simp only [ne_eq, decide_not, Bool.and_eq_true, Bool.not_eq_true', decide_eq_false_iff_not,
      beq_iff_eq] at hmain
    exact ⟨main, mem_liveThreads.mpr ⟨hmain.1.2, hmain.2⟩, rfl⟩

section

variable (h : kernel.GroupsCounted)

include h

theorem afterThreadEnded (howner : kernel.processCurrent = some process)
    (halive : (kernel.processes process).alive = true) (hlive : kernel.running.state.live = true)
    (hended : EndStep (fun thread => thread = kernel.current) kernel ended)
    (hmore : 1 < (kernel.processes process).threadCount) :
    (ended.setProcess process
      { kernel.processes process with
        threadCount := (kernel.processes process).threadCount - 1
        mainThread :=
          if (kernel.processes process).mainThread = some kernel.current then
            ended.firstLive process
          else (kernel.processes process).mainThread }).GroupsCounted := by
  have hcurrent : kernel.current ∈ kernel.liveThreads process :=
    mem_liveThreads.mpr ⟨howner, hlive⟩
  have herase : ended.liveThreads process = (kernel.liveThreads process).erase kernel.current := by
    ext thread
    rw [Finset.mem_erase, mem_liveThreads, mem_liveThreads, hended.owner, live_of_kept hended]
    tauto
  refine h.afterEnded hended (fun thread heq => heq ▸ howner) ?_ (fun hdead => ?_)
  · intro _
    have hprocess : process ≠ kernelProcess := by
      rintro rfl
      exact hmore.ne' (h.boot halive)
    have hcount := h.count process hprocess halive
    have hcard := Finset.card_erase_of_mem hcurrent
    refine ⟨hprocess, h.used process halive, by rw [herase, hcard, hcount], ?_⟩
    dsimp only
    split
    · -- another live thread is left, and none of them is thread 0
      have hpos : 0 < (ended.liveThreads process).card := by
        rw [herase, hcard]
        omega
      obtain ⟨other, hother⟩ := Finset.card_pos.mp hpos
      refine firstLive_some hother ?_
      rintro rfl
      rw [mem_liveThreads, hended.owner] at hother
      exact h.owner_of_kernelThread hother.1 hprocess (.inl rfl)
    next hnot =>
    obtain ⟨main, hmain, hmember⟩ := h.main process halive
    refine ⟨main, ?_, hmain⟩
    rw [herase, Finset.mem_erase]
    refine ⟨?_, hmember⟩
    rintro rfl
    exact hnot hmain
  · rw [halive] at hdead
    cases hdead

theorem afterProcessEnded (howner : kernel.processCurrent = some process)
    (halive : kernel.current ≠ 0 ∧ (kernel.processes process).alive = true)
    (hended : EndStep ends kernel ended)
    (hends : kernel.EndsProcess process ends)
    (hrecord : record.alive = false) :
    (ended.setProcess process record).GroupsCounted := by
  have hlive : ∀ thread ∈ kernel.liveThreads process, ¬KernelThread thread → ends thread := by
    intro thread hmember hthread
    rcases hends with hall | ⟨hcurrent, hcount, hrunning⟩
    · rw [mem_liveThreads] at hmember
      refine (hall thread).mpr ⟨fun hzero => hthread (.inl hzero), hmember.1, ?_⟩
      exact ThreadState.ne_unused_of_live hmember.2
    -- the count says that there is no other live thread
    have hprocess : process ≠ kernelProcess := by
      rintro rfl
      exact hthread (h.outside thread (mem_liveThreads.mp hmember).1)
    rw [h.count process hprocess halive.2] at hcount
    refine (hcurrent thread).mpr ?_
    exact Finset.card_le_one.mp hcount thread hmember kernel.current
      (mem_liveThreads.mpr ⟨howner, hrunning⟩)
  refine h.afterEnded hended ?_ ?_ (fun _ => hlive)
  · intro thread hthread
    rcases hends with hall | ⟨hcurrent, -, -⟩
    · exact ((hall thread).mp hthread).2.1
    · rw [(hcurrent thread).mp hthread]
      exact howner
  · intro hnot
    rw [hrecord] at hnot
    cases hnot

theorem reaped_same (hprocess : process ≠ kernelProcess)
    (hdead : (kernel.processes process).alive = false) :
    SameGroups kernel (kernel.reaped process) := by
  refine .of_cleared le_rfl ?_ ?_
  · intro thread
    dsimp only
    split
    next howned =>
      exact .inr ⟨rfl, h.liveThreads_of_dead hprocess hdead howned.2,
        h.owner_of_kernelThread howned.2 hprocess⟩
    · exact .inl rfl
  · intro other
    dsimp only
    rw [setProcess_processes]
    split
    next heq =>
      subst heq
      exact .inr ⟨rfl, hdead⟩
    · exact .inl rfl

theorem clearedThread_same {tid : ℕ} (hunused : (kernel.threads thread).state = .unused) :
    SameGroups kernel { kernel.setThread thread ThreadSlot.zero with nextTid := tid } := by
  refine .of_cleared le_rfl ?_ fun _ => .inl rfl
  intro other
  dsimp only
  rw [setThread_threads]
  split
  next heq =>
    subst heq
    exact .inr ⟨rfl, by rw [hunused]; rfl, h.not_kernelThread_of_unused hunused⟩
  · exact .inl rfl

theorem clearedProcess_same (hfree : (kernel.processes process).pid = 0) :
    SameGroups kernel
      { kernel.setProcess process ProcessSlot.zero with nextPid := kernel.nextPid + 1 } := by
  refine .of_cleared (Nat.le_succ _) (fun _ => .inl rfl) ?_
  intro other
  dsimp only
  rw [setProcess_processes]
  split
  next heq =>
    subst heq
    exact .inr ⟨rfl, h.not_alive_of_free hfree⟩
  · exact .inl rfl

theorem afterChange (hchange : Change event kernel after) : after.GroupsCounted := by
  cases hchange with
  | moved hmove => exact h.afterSame (SameGroups.of_sched hmove.sched hmove.inKernel).toSameCounts
  | personal hpersonal => exact h.afterSame (SameGroups.of_personal hpersonal).toSameCounts
  | action => exact h.afterSame (SameGroups.of_action _ _ _ _).toSameCounts
  | forked root _ _ hparent halive _ hchild hthread =>
    have hdead := h.not_alive_of_free hchild.2
    refine h.afterCreated hthread.2 hchild.1 rfl rfl (Nat.le_succ _) ⟨rfl, rfl⟩
      ⟨rfl, h.nextPid.ne'⟩ ?_ (.inl rfl)
    rw [h.liveThreads_eq_empty hchild.1 hdead]
    rfl
  | cloned _ _ hprocess halive hcaller hthread =>
    obtain ⟨hne, -⟩ := h.owner_of_running hcaller.1 hcaller.2 hprocess
    refine h.afterCreated hthread.2 hne rfl rfl le_rfl ⟨rfl, rfl⟩
      ⟨halive, h.used _ halive⟩ (congrArg (· + 1) (h.count _ hne halive)) (.inr ?_)
    obtain ⟨main, hmain, hmember⟩ := h.main _ halive
    exact ⟨main, hmember, hmain⟩
  | clearedThread hthread => exact h.afterSame (h.clearedThread_same hthread.2).toSameCounts
  | clearedProcess hprocess => exact h.afterSame (h.clearedProcess_same hprocess.2).toSameCounts
  | threadEnded hprocess halive hlive hended hmore =>
    exact h.afterThreadEnded hprocess halive.2 hlive hended hmore
  | processEnded main status hprocess halive hended hends =>
    exact h.afterProcessEnded hprocess halive hended hends rfl
  | reaped hprocess hdead => exact h.afterSame (h.reaped_same hprocess hdead.1).toSameCounts

theorem afterChanges (hchanges : Changes event kernel after) : after.GroupsCounted := by
  induction hchanges with
  | refl => exact h
  | tail _ hchange ih => exact ih.afterChange hchange

theorem afterTransition (htransition : Transition event kernel after) : after.GroupsCounted := by
  cases htransition with
  | changed hchange => exact h.afterChange hchange
  | switched hswitch =>
    exact h.afterSame (SameGroups.of_sched hswitch.sched hswitch.inKernel).toSameCounts

end

theorem launched (root entry stack : Word) : (launched root entry stack).GroupsCounted := by
  have hkernel : ∀ thread, KernelThread thread ↔ thread = 0 ∨ thread = 1 := fun _ => Iff.rfl
  have hlive : (NPKernel.launched root entry stack).liveThreads 1 = {2} := by
    ext thread
    rw [mem_liveThreads, Finset.mem_singleton]
    simp only [NPKernel.launched]
    split_ifs with h0 h1 h2
    · simp [h0, kernelProcess]
    · simp [h1, kernelProcess, bspIdleThread]
    · simp [h2, ThreadState.live]
    · simp [h2, ThreadSlot.zero, Thread.zero]
  refine ⟨?_, ?_, Nat.succ_pos 2, ?_, ?_, ?_, fun _ => rfl, ?_⟩
  · intro thread hthread
    rcases hthread with rfl | rfl
    · exact ⟨rfl, (by decide : ThreadState.running ≠ .unused), rfl, rfl⟩
    · exact ⟨rfl, (by decide : ThreadState.ready ≠ .unused), rfl, rfl⟩
  · intro thread
    rw [hkernel]
    simp only [NPKernel.launched]
    split_ifs <;> simp_all [kernelProcess, bspIdleThread, ThreadSlot.zero, Thread.zero]
  · intro process
    simp only [NPKernel.launched]
    split_ifs <;> simp [ProcessSlot.zero, Process.zero]
  · intro thread hthread
    simp only [hkernel, not_or] at hthread
    simp only [NPKernel.launched, hthread.1, if_false, bspIdleThread, hthread.2]
    split_ifs with h2
    · intro _
      exact ⟨1, by decide, rfl, rfl⟩
    · intro hzero
      cases hzero
  · intro process hprocess
    by_cases hone : process = 1
    · subst hone
      intro _
      rw [hlive]
      rfl
    · simp [NPKernel.launched, hprocess, hone, ProcessSlot.zero, Process.zero]
  · intro process
    by_cases hprocess : process = kernelProcess
    · subst hprocess
      exact fun _ => ⟨0, rfl, mem_liveThreads.mpr ⟨rfl, rfl⟩⟩
    by_cases hone : process = 1
    · subst hone
      intro _
      rw [hlive]
      exact ⟨2, rfl, Finset.mem_singleton_self 2⟩
    · simp [NPKernel.launched, hprocess, hone, ProcessSlot.zero, Process.zero]

end GroupsCounted

/-! ## The roots of live threads -/

namespace RootsShared

variable {kernel after : Kernel}

theorem afterCreated (hroots : kernel.RootsShared)
    (hunused : (kernel.threads thread).state = .unused)
    (hthreads : after.threads = Function.update kernel.threads thread slot)
    (hprocesses : after.processes = Function.update kernel.processes process record)
    (hslot : slot.owner = some process ∧ slot.state.live = true)
    (hcr3 : slot.context.cr3 = record.addressSpaceRoot)
    (hroot : ∀ other ∈ kernel.liveThreads process,
      (kernel.threads other).context.cr3 = record.addressSpaceRoot) : after.RootsShared := by
  obtain ⟨hinsert, hothers⟩ := GroupsCounted.liveThreads_of_created hunused hthreads hslot
  have hne : ∀ other member, member ∈ kernel.liveThreads other → member ≠ thread := by
    rintro other member hmember rfl
    rw [mem_liveThreads, hunused] at hmember
    cases hmember.2
  intro other hother member hmember
  by_cases heq : other = process
  · subst heq
    rw [hinsert, Finset.mem_insert] at hmember
    rw [hprocesses, Function.update_self, hthreads]
    rcases hmember with rfl | hmember
    · rw [Function.update_self]
      exact hcr3
    · rw [Function.update_of_ne (hne other member hmember)]
      exact hroot member hmember
  · rw [hothers other heq] at hmember
    rw [hprocesses, Function.update_of_ne heq, hthreads,
      Function.update_of_ne (hne other member hmember)]
    exact hroots other hother member hmember

theorem afterEnded (hroots : kernel.RootsShared) {ends : ThreadId → Prop}
    (hended : EndStep ends kernel ended) (hsound : (ended.setProcess process record).GroupsCounted)
    (hrecord : record.alive = true →
      record.addressSpaceRoot = (kernel.processes process).addressSpaceRoot) :
    (ended.setProcess process record).RootsShared := by
  intro other hother thread hmember
  have halive := hsound.alive_of_live hother hmember
  rw [mem_liveThreads, setProcess_threads, hended.owner,
    GroupsCounted.live_of_kept hended] at hmember
  have hcr3 : (ended.threads thread).context.cr3 = (kernel.threads thread).context.cr3 :=
    hended.field (fun slot => slot.context.cr3) (fun _ _ => rfl) (fun _ => rfl) thread
  have hroot := hroots other hother thread (mem_liveThreads.mpr ⟨hmember.1, hmember.2.2⟩)
  rw [setProcess_threads, hcr3, hroot]
  rw [setProcess_processes] at halive ⊢
  split
  next heq =>
    subst heq
    rw [if_pos rfl] at halive
    exact (hrecord halive).symm
  · rw [hended.processes]

theorem afterChange (hroots : kernel.RootsShared) (h : kernel.GroupsCounted)
    (hchange : Change event kernel after) : after.RootsShared := by
  have hafter := h.afterChange hchange
  cases hchange with
  | moved hmove => exact hroots.afterSame h (.of_sched hmove.sched hmove.inKernel)
  | personal hpersonal => exact hroots.afterSame h (.of_personal hpersonal)
  | action => exact hroots.afterSame h (.of_action _ _ _ _)
  | forked root _ _ hparent halive _ hchild hthread =>
    refine hroots.afterCreated hthread.2 rfl rfl ⟨rfl, rfl⟩ rfl ?_
    rw [h.liveThreads_eq_empty hchild.1 (h.not_alive_of_free hchild.2)]
    intro other hother
    exact absurd hother (Finset.notMem_empty other)
  | cloned _ _ hprocess halive hcaller hthread =>
    obtain ⟨hne, -⟩ := h.owner_of_running hcaller.1 hcaller.2 hprocess
    exact hroots.afterCreated hthread.2 rfl rfl ⟨rfl, rfl⟩ rfl (hroots _ hne)
  | clearedThread hthread => exact hroots.afterSame h (h.clearedThread_same hthread.2)
  | clearedProcess hprocess => exact hroots.afterSame h (h.clearedProcess_same hprocess.2)
  | threadEnded hprocess halive hlive hended hmore =>
    exact hroots.afterEnded hended hafter fun _ => rfl
  | processEnded main status hprocess halive hended hends =>
    refine hroots.afterEnded hended hafter ?_
    intro hnot
    cases hnot
  | reaped hprocess hdead => exact hroots.afterSame h (h.reaped_same hprocess hdead.1)

end RootsShared

namespace GroupsSound

variable {kernel after : Kernel}

theorem afterChange (h : kernel.GroupsSound)
    (hchange : Change event kernel after) : after.GroupsSound :=
  ⟨h.toGroupsCounted.afterChange hchange, h.roots.afterChange h.toGroupsCounted hchange⟩

theorem afterChanges (h : kernel.GroupsSound)
    (hchanges : Changes event kernel after) : after.GroupsSound := by
  induction hchanges with
  | refl => exact h
  | tail _ hchange ih => exact ih.afterChange hchange

theorem afterTransition (h : kernel.GroupsSound)
    (htransition : Transition event kernel after) : after.GroupsSound := by
  cases htransition with
  | changed hchange => exact h.afterChange hchange
  | switched hswitch =>
    have hsame : SameGroups kernel after := .of_sched hswitch.sched hswitch.inKernel
    exact ⟨h.toGroupsCounted.afterSame hsame.toSameCounts,
      h.roots.afterSame h.toGroupsCounted hsame⟩

theorem launched (root entry stack : Word) : (launched root entry stack).GroupsSound := by
  refine ⟨.launched root entry stack, ?_⟩
  intro process hprocess thread hmember
  have hthread := (GroupsCounted.launched root entry stack).owner_of_kernelThread
    (mem_liveThreads.mp hmember).1 hprocess
  simp only [KernelThread, not_or] at hthread
  rw [mem_liveThreads] at hmember
  simp only [NPKernel.launched, hthread.1, hthread.2, if_false] at hmember ⊢
  split at hmember
  next htwo =>
    have hone : 1 = process := Option.some.inj hmember.1
    subst hone
    simp [htwo, kernelProcess]
  · cases hmember.2

end GroupsSound

/-! ## Exec -/

theorem SameCounts.of_slot (hthreads : after.threads = Function.update kernel.threads thread slot)
    (hthread : ¬KernelThread thread) (howner : slot.owner = (kernel.threads thread).owner)
    (hlive : slot.state.live = (kernel.threads thread).state.live)
    (hprocess : ∀ process, (after.processes process).alive = (kernel.processes process).alive ∧
      (after.processes process).pid = (kernel.processes process).pid ∧
      (after.processes process).threadCount = (kernel.processes process).threadCount ∧
      (after.processes process).mainThread = (kernel.processes process).mainThread)
    (hpid : kernel.nextPid ≤ after.nextPid) : SameCounts kernel after := by
  have hsame : ∀ other, (after.threads other).owner = (kernel.threads other).owner := by
    intro other
    rw [hthreads, Function.update_apply]
    split
    next heq => rw [heq, howner]
    · rfl
  refine ⟨?_, fun other _ => hsame other, ?_, fun other h => (hsame other).symm.trans h,
    fun process => (hprocess process).1, fun process _ => (hprocess process).2, hpid⟩
  · intro other
    rw [hthreads, Function.update_apply]
    split
    next heq => rw [heq, hlive]
    · rfl
  · intro other hother
    have hne : other ≠ thread := by
      rintro rfl
      exact hthread hother
    rw [hthreads, Function.update_of_ne hne]
    exact ⟨rfl, Iff.rfl, id⟩

theorem processExecCurrent_mainLive (answers : Answers) (h : kernel.GroupsCounted)
    (hlive : kernel.running.state.live = true) :
    (kernel.processExecCurrent answers).1 ≠ 0 ∧ (kernel.processExecCurrent answers).2 = kernel ∨
      ∃ process staged main, answers.stageExecImage = some staged ∧ process ≠ kernelProcess ∧
        kernel.processCurrent = some process ∧ (kernel.processes process).alive = true ∧
        main ∈ kernel.liveThreads process ∧
        (kernel.processExecCurrent answers).2 =
          (kernel.execCaller process staged).madeCurrent main := by
  rcases processExecCurrent_cases answers kernel with hsame |
    ⟨process, staged, hprocess, hring, hstaged, hexec⟩
  · exact .inl hsame
  obtain ⟨hne, halive⟩ := h.owner_of_running hring hlive hprocess
  obtain ⟨main, hmain, hmember⟩ := h.main process halive
  rcases hexec with ⟨hnone, -⟩ | ⟨main', -, hmain', heq⟩
  · rw [hnone halive] at hmain
    cases hmain
  · rw [hmain'] at hmain
    cases hmain
    exact .inr ⟨process, staged, _, hstaged, hne, hprocess, halive, hmember, heq⟩

theorem GroupsCounted.afterExec (answers : Answers) (h : kernel.GroupsCounted)
    (hlive : kernel.running.state.live = true) :
    (kernel.processExecCurrent answers).2.GroupsCounted := by
  rcases processExecCurrent_mainLive answers h hlive with
    ⟨-, hsame⟩ | ⟨process, staged, main, -, hne, hprocess, -, hmember, hexec⟩
  · rw [hsame]
    exact h
  have hcaller : (kernel.execCaller process staged).GroupsCounted := by
    refine h.afterSame (.of_slot rfl (h.owner_of_kernelThread hprocess hne) rfl rfl ?_ le_rfl)
    intro other
    rw [execCaller, setThread_processes, setProcess_processes]
    split
    next heq =>
      subst heq
      exact ⟨rfl, rfl, rfl, rfl⟩
    · exact ⟨rfl, rfl, rfl, rfl⟩
  have hmain := (mem_liveThreads.mp hmember)
  rw [hexec]
  refine hcaller.afterSame (.of_slot rfl (h.owner_of_kernelThread hmain.1 hne) rfl ?_
    (fun _ => ⟨rfl, rfl, rfl, rfl⟩) le_rfl)
  rw [execCaller, setThread_threads]
  split
  next heq =>
    subst heq
    exact hmain.2.symm
  · exact hmain.2.symm

def Alone (kernel : Kernel) : Prop :=
  ∀ process, kernel.processCurrent = some process →
    ∀ thread ∈ kernel.liveThreads process, thread = kernel.current

def execInstalled (kernel : Kernel) (process : ProcId) (staged : StagedExec) : Kernel :=
  (kernel.setProcess process
    { kernel.processes process with
      addressSpaceRoot := staged.addressSpaceRoot
      signalActions := fun _ => SigAction.zero }).setThread kernel.current
      { execThread kernel.running staged with state := .running }

theorem execInstalled_liveThreads (hlive : kernel.running.state.live = true)
    (process : ProcId) (staged : StagedExec) (other : ProcId) :
    (kernel.execInstalled process staged).liveThreads other = kernel.liveThreads other := by
  ext thread
  rw [mem_liveThreads, mem_liveThreads, execInstalled, setThread_threads]
  split
  next heq =>
    subst heq
    exact ⟨fun h => ⟨h.1, hlive⟩, fun h => ⟨h.1, rfl⟩⟩
  · rfl

theorem processExecCurrent_alone (answers : Answers) (h : kernel.GroupsCounted)
    (hlive : kernel.running.state.live = true)
    (halone : answers.stageExecImage.isSome = true → kernel.Alone) :
    ((kernel.processExecCurrent answers).1 ≠ 0 ∧ (kernel.processExecCurrent answers).2 = kernel) ∨
      ∃ process staged, process ≠ kernelProcess ∧ kernel.processCurrent = some process ∧
        (kernel.processes process).alive = true ∧ kernel.Alone ∧
        (kernel.processExecCurrent answers).2 = kernel.execInstalled process staged := by
  rcases processExecCurrent_mainLive answers h hlive with hsame |
    ⟨process, staged, main, hstaged, hne, hprocess, halive, hmember, heq⟩
  · exact .inl hsame
  have halone := halone (by rw [hstaged]; rfl)
  refine .inr ⟨process, staged, hne, hprocess, halive, halone, ?_⟩
  rw [heq, halone process hprocess main hmember]
  simp [execCaller, execInstalled, setThread, setProcess]

theorem execInstalled_alone (hlive : kernel.running.state.live = true)
    (halone : kernel.Alone) (process : ProcId) (staged : StagedExec) :
    (kernel.execInstalled process staged).processCurrent = kernel.processCurrent ∧
      (kernel.execInstalled process staged).Alone := by
  have hcurrent : (kernel.execInstalled process staged).processCurrent = kernel.processCurrent := by
    simp [execInstalled, processCurrent, running, execThread, execSignalReset]
  refine ⟨hcurrent, ?_⟩
  intro other hother thread hthread
  rw [hcurrent] at hother
  rw [execInstalled_liveThreads hlive] at hthread
  exact halone other hother thread hthread

theorem GroupsSound.afterExec (answers : Answers) (h : kernel.GroupsSound)
    (hlive : kernel.running.state.live = true)
    (halone : answers.stageExecImage.isSome = true → kernel.Alone) :
    (kernel.processExecCurrent answers).2.GroupsSound := by
  obtain ⟨hcounted, hroots⟩ := h
  refine ⟨hcounted.afterExec answers hlive, ?_⟩
  rcases processExecCurrent_alone answers hcounted hlive halone with ⟨-, hsame⟩ |
    ⟨process, staged, hne, hprocess, halive, halone, hnext⟩
  · rw [hsame]
    exact hroots
  rw [hnext]
  intro other hother thread hmember
  rw [execInstalled_liveThreads hlive process staged] at hmember
  rw [execInstalled, setThread_threads, setThread_processes, setProcess_processes]
  split
  next heq =>
    subst heq
    have hsame : other = process :=
      Option.some.inj ((mem_liveThreads.mp hmember).1.symm.trans hprocess)
    rw [if_pos hsame]
    rfl
  next hthread =>
  have hdifferent : other ≠ process := by
    rintro rfl
    exact hthread (halone other hprocess thread hmember)
  rw [if_neg hdifferent]
  exact hroots other hother thread hmember

theorem enterSyscall_liveThreads (kernel : Kernel) (frame : SyscallFrame) (process : ProcId) :
    (kernel.enterSyscall frame).liveThreads process ⊆ kernel.liveThreads process := by
  have hentered : (kernel.setThread kernel.current
      { kernel.running with
        savedInterruptFrame := some (.stackTop kernel.current)
        savedFrameKind := .syscall
        frame := frame.raw }).liveThreads process = kernel.liveThreads process := by
    ext thread
    rw [mem_liveThreads, mem_liveThreads, setThread_threads]
    split
    next heq =>
      subst heq
      rfl
    · rfl
  have hreaped : ∀ (before : Kernel) (child : ProcId),
      (before.reapProcess child).liveThreads process ⊆ before.liveThreads process := by
    intro before child thread
    rw [mem_liveThreads, mem_liveThreads]
    unfold reapProcess
    split
    · exact id
    dsimp only
    split
    · rintro ⟨hnone, -⟩
      cases hnone
    · exact id
  rw [← hentered]
  unfold enterSyscall
  fun_cases processReapPending with
  | case4 => exact hreaped _ _
  | _ => exact Finset.Subset.refl _

/-- A successful exec is the call of the only live thread of its process. -/
def ExecAlone (kernel : Kernel) : Event → Prop
  | .syscall user answers =>
    user.syscallFrame.syscall = .execve → answers.stageExecImage.isSome = true → kernel.Alone
  | _ => True

theorem Alone.entered (h : kernel.Alone) (frame : SyscallFrame) :
    (kernel.enterSyscall frame).Alone := by
  intro process hprocess thread hthread
  rw [processCurrent, enterSyscall_running] at hprocess
  rw [(enterSyscall_fields kernel frame).1]
  exact h process hprocess thread (enterSyscall_liveThreads kernel frame process hthread)

end Kernel

/-- In every run in which only a thread that is alone in its process execs, every
live ring-3 thread has the root of its own living process in its saved CR3, and
the thread that continues after an exec is its caller, alone in its process. -/
theorem exec_leaves_no_stale_thread {root entry stack : Word} {events : List Event} {last : Kernel}
    (hguard : Guarded Kernel.step Kernel.ExecAlone (launched root entry stack) events)
    (hrun : run Kernel.step (launched root entry stack) events = some last) :
    (∀ thread, (last.threads thread).state.live = true →
      (last.threads thread).privilegeRing = 3 →
      ∃ process, (last.threads thread).owner = some process ∧
        (last.processes process).alive = true ∧
        (last.threads thread).context.cr3 = (last.processes process).addressSpaceRoot) ∧
    ∀ (user : UserState) (answers : Answers) (next : Kernel), last.mode = .user →
      last.ExecAlone (.syscall user answers) → user.syscallFrame.syscall = .execve →
      Kernel.syscallDispatch answers (last.enterSyscall user.syscallFrame) user.syscallFrame =
        .returned 0 next →
      next.current = last.current ∧ next.processCurrent = last.processCurrent ∧ next.Alone := by
  have hsound : last.GroupsSound := by
    refine Kernel.invariant_of_transitions (.launched root entry stack) hguard hrun ?_ ?_
    · intro _ event before after _ h htransition
      exact h.afterTransition htransition
    · intro kernel user answers hevent _ hcall hlive hentered
      refine hentered.afterExec answers hlive ?_
      intro hstaged
      exact (hevent hcall hstaged).entered _
  have hrunning := (Kernel.Positioned.launched root entry stack).afterRun hrun
  refine ⟨?_, ?_⟩
  · intro thread hlive hring
    have hthread : ¬Kernel.KernelThread thread := by
      intro hkernel
      have hzero := (hsound.kernelThread thread hkernel).2.2.1
      rw [hring] at hzero
      cases hzero
    obtain ⟨process, hne, howner, halive⟩ := hsound.member thread hthread hlive
    exact ⟨process, howner, halive,
      hsound.roots process hne thread (Kernel.mem_liveThreads.mpr ⟨howner, hlive⟩)⟩
  · intro user answers next hmode hevent hcall hexec
    have hlive : (last.enterSyscall user.syscallFrame).running.state.live = true := by
      rw [Kernel.enterSyscall_state, hrunning.at_mode hmode]
      rfl
    have hentered : (last.enterSyscall user.syscallFrame).GroupsSound := by
      have hchanges : Kernel.Changes (.syscall user answers) last _ :=
        Kernel.enterSyscall_changes last user.syscallFrame
      exact hsound.afterChanges hchanges
    simp only [Kernel.syscallDispatch, hcall, CallOutcome.returned.injEq] at hexec
    obtain ⟨hresult, rfl⟩ := hexec
    rcases Kernel.processExecCurrent_alone answers hentered.toGroupsCounted hlive
      (fun hstaged => (hevent hcall hstaged).entered _) with ⟨hfailed, -⟩ |
      ⟨process, staged, hne, hprocess, -, halone, hnext⟩
    · exact absurd hresult hfailed
    rw [hnext]
    obtain ⟨hcurrent, hstill⟩ :=
      Kernel.execInstalled_alone hlive halone process staged
    refine ⟨(Kernel.enterSyscall_fields last _).1, ?_, hstill⟩
    rw [hcurrent, Kernel.processCurrent, Kernel.enterSyscall_running]
    rfl

instance (kernel : Kernel) : Decidable kernel.Alone :=
  decidable_of_iff
    (∀ thread, (kernel.threads thread).owner ≠ none →
      (kernel.threads thread).owner = kernel.processCurrent →
      (kernel.threads thread).state.live = true → thread = kernel.current) (by
    constructor
    · intro h process hprocess thread hthread
      rw [Kernel.mem_liveThreads] at hthread
      exact h thread (by simp [hthread.1]) (hthread.1.trans hprocess.symm) hthread.2
    · intro h thread hsome howner hlive
      obtain ⟨process, hprocess⟩ := Option.ne_none_iff_exists'.mp hsome
      exact h process (howner ▸ hprocess) thread (Kernel.mem_liveThreads.mpr ⟨hprocess, hlive⟩))

instance (kernel : Kernel) : (event : Event) → Decidable (kernel.ExecAlone event)
  | .syscall _ _ => inferInstanceAs (Decidable (_ → _ → kernel.Alone))
  | .exception .. | .timer .. | .kernelTick | .key | .getchar _ | .wake | .yield _ =>
    .isTrue trivial

/-- The first process forks and then execs. -/
def forkExecRun : List Event :=
  [.call 57 [], .call 59 []]

theorem exec_leaves_no_stale_thread_forked :
    ∃ last, run Kernel.step sampleKernel forkExecRun = some last ∧
      (last.processes 1).addressSpaceRoot = 0x9000 ∧
      ∃ process, (last.threads 2).owner = some process ∧
        (last.processes process).alive = true ∧
        (last.threads 2).context.cr3 = (last.processes process).addressSpaceRoot := by
  have hfacts : (run Kernel.step sampleKernel forkExecRun).map
      (fun last => ((last.threads 2).state, (last.threads 2).privilegeRing,
        (last.processes 1).addressSpaceRoot)) = some (.running, 3, 0x9000) := by
    decide +kernel
  obtain ⟨last, hrun, hvalues⟩ := Option.map_eq_some_iff.1 hfacts
  simp only [Prod.mk.injEq] at hvalues
  obtain ⟨hstate, hring, hroot⟩ := hvalues
  have hguard : Guarded Kernel.step Kernel.ExecAlone sampleKernel forkExecRun := by
    decide +kernel
  refine ⟨last, hrun, hroot, ?_⟩
  exact (exec_leaves_no_stale_thread hguard hrun).1 2 (by rw [hstate]; rfl) hring

def cloneExecRun : List Event :=
  [.call 56 [0x10f00, 0x7fff0000, 0, 0, 0], .call 59 []]

/-- The second thread is live in the address space that the exec has destroyed. -/
theorem exec_leaves_second_thread :
    ¬ ∀ (events : List Event) (last : Kernel) (thread : ThreadId),
      run Kernel.step sampleKernel events = some last →
      (last.threads thread).state.live = true → (last.threads thread).privilegeRing = 3 →
      ∃ process, (last.threads thread).owner = some process ∧
        (last.processes process).alive = true ∧
        (last.threads thread).context.cr3 = (last.processes process).addressSpaceRoot := by
  intro h
  have hfacts : (run Kernel.step sampleKernel cloneExecRun).map
      (fun last => ((last.threads 3).state, (last.threads 3).privilegeRing,
        (last.threads 3).owner, (last.threads 3).context.cr3,
        (last.processes 1).addressSpaceRoot)) =
      some (.ready, 3, some 1, 0x1000, 0x9000) := by
    decide +kernel
  obtain ⟨last, hrun, hvalues⟩ := Option.map_eq_some_iff.1 hfacts
  simp only [Prod.mk.injEq] at hvalues
  obtain ⟨hstate, hring, howner, hcr3, hroot⟩ := hvalues
  obtain ⟨process, hprocess, -, hsame⟩ := h _ last 3 hrun (by rw [hstate]; rfl) hring
  obtain rfl : 1 = process := Option.some.inj (howner.symm.trans hprocess)
  rw [hcr3, hroot] at hsame
  exact absurd hsame (by decide)

end NPKernel
