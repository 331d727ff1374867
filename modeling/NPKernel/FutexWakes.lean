import NPKernel.FutexTables

/-!
# Futex wakes

In a table that is exact a wake counts threads by counting slots: it completes
the waits in as many matching slots as it is asked to, and no other.
-/

namespace NPKernel

open RegisterStack GuardedRuns

namespace Kernel

def waitingOn (addresses : FutexAddresses) (kernel : Kernel) (root userAddress : Word) :
    Finset ThreadId :=
  Finset.univ.filter fun thread => (kernel.threads thread).futexWaiting = true ∧
    kernel.addressSpaceOf thread = some root ∧ addresses thread = some userAddress

/-- The threads in `woken` are made ready with the result zero and lose their
slots, and nothing else changes. -/
structure Wakes (woken : Finset ThreadId) (before after : Kernel) : Prop where
  rest : after = { before with threads := after.threads, futexWaiters := after.futexWaiters }
  ready : ∀ thread ∈ woken, (before.threads thread).state = .blocked ∧
    after.threads thread =
      { before.threads thread with futexWaiting := false, futexResult := 0, state := .ready }
  others : ∀ thread ∉ woken, after.threads thread = before.threads thread
  freed : ∀ i, (before.futexWaiters i).active = true → (before.futexWaiters i).thread ∈ woken →
    after.futexWaiters i = { before.futexWaiters i with active := false }
  slots : ∀ i, (before.futexWaiters i).active = false ∨ (before.futexWaiters i).thread ∉ woken →
    after.futexWaiters i = before.futexWaiters i

namespace Wakes

theorem refl (kernel : Kernel) : Wakes ∅ kernel kernel :=
  ⟨rfl, fun _ h => absurd h (Finset.notMem_empty _), fun _ _ => rfl,
    fun _ _ h => absurd h (Finset.notMem_empty _), fun _ _ => rfl⟩

theorem name {woken : Finset ThreadId} {before after : Kernel} (h : Wakes woken before after)
    (i : Fin 256) : (after.futexWaiters i).thread = (before.futexWaiters i).thread := by
  by_cases hfreed : (before.futexWaiters i).active = true ∧ (before.futexWaiters i).thread ∈ woken
  · rw [h.freed i hfreed.1 hfreed.2]
  · rw [h.slots i (by rw [not_and_or, Bool.not_eq_true] at hfreed; exact hfreed)]

theorem insert {first second third : Kernel} {thread : ThreadId} {woken : Finset ThreadId}
    (h : Wakes {thread} first second) (h' : Wakes woken second third) :
    Wakes (insert thread woken) first third := by
  obtain ⟨hblocked, hready⟩ := h.ready thread (Finset.mem_singleton_self thread)
  have hthread : thread ∉ woken := by
    intro hmem
    have hstate := (h'.ready thread hmem).1
    rw [hready] at hstate
    cases hstate
  have hother : ∀ other ≠ thread, second.threads other = first.threads other := fun other hne =>
    h.others other (by rwa [Finset.mem_singleton])
  refine ⟨?_, ?_, ?_, ?_, ?_⟩
  · have hrest := h'.rest
    rw [h.rest] at hrest
    exact hrest
  · intro other hmem
    rcases Finset.mem_insert.mp hmem with rfl | hlater
    · rw [h'.others other hthread]
      exact ⟨hblocked, hready⟩
    · have hne : other ≠ thread := by
        rintro rfl
        exact hthread hlater
      rw [← hother other hne]
      exact h'.ready other hlater
  · intro other hmem
    rw [Finset.mem_insert, not_or] at hmem
    rw [h'.others other hmem.2, hother other hmem.1]
  · intro i hactive hmem
    by_cases hi : (first.futexWaiters i).thread = thread
    · have hsecond := h.freed i hactive (by rw [hi]; exact Finset.mem_singleton_self thread)
      rw [h'.slots i (.inl (by rw [hsecond])), hsecond]
    · have hsecond := h.slots i (.inr (by rwa [Finset.mem_singleton]))
      rw [Finset.mem_insert] at hmem
      rw [← hsecond]
      exact h'.freed i (by rw [hsecond]; exact hactive)
        (by rw [hsecond]; exact hmem.resolve_left hi)
  · intro i hkept
    have hsecond : second.futexWaiters i = first.futexWaiters i := by
      refine h.slots i (hkept.imp_right fun hnot => ?_)
      rw [Finset.mem_insert, not_or] at hnot
      rw [Finset.mem_singleton]
      exact hnot.1
    rw [← hsecond] at hkept ⊢
    refine h'.slots i (hkept.imp_right fun hnot => ?_)
    rw [Finset.mem_insert, not_or] at hnot
    exact hnot.2

end Wakes

def slotMatches (kernel : Kernel) (root userAddress : Word) (i : Fin 256) : Bool :=
  (kernel.futexWaiters i).active && (kernel.futexWaiters i).addressSpaceRoot == root &&
    (kernel.futexWaiters i).userAddress == userAddress

namespace FutexTable

variable {addresses : FutexAddresses} {kernel : Kernel}

theorem wakes_complete (h : FutexTable addresses kernel) {i : Fin 256}
    (hactive : (kernel.futexWaiters i).active = true) :
    Wakes {(kernel.futexWaiters i).thread} kernel
      (kernel.futexCompleteThread (kernel.futexWaiters i).thread 0) := by
  have hblocked := h.blocked _ (h.slot i hactive).waits
  rw [futexCompleteThread, if_pos ((kernel.futexWaits_iff _).2 ⟨i, hactive, rfl⟩)]
  refine ⟨rfl, ?_, ?_, ?_, ?_⟩
  · intro thread hthread
    rw [Finset.mem_singleton] at hthread
    subst hthread
    refine ⟨hblocked, ?_⟩
    simp [ThreadSlot.futexCompleted, hblocked, ThreadState.woken]
  · intro thread hthread
    rw [Finset.mem_singleton] at hthread
    simp [hthread]
  · intro j _ hmem
    exact if_pos (Finset.mem_singleton.mp hmem)
  · intro j hkept
    dsimp only
    split
    next heq =>
      have hinactive := hkept.resolve_right (fun hnot => hnot (Finset.mem_singleton.mpr heq))
      rw [← hinactive]
    · rfl

/-- The slots of a list that a wake takes: the first `count` that hold a wait on
the address. -/
def taken (kernel : Kernel) (root userAddress : Word) (slots : List (Fin 256)) (count : ℕ) :
    List (Fin 256) :=
  (slots.filter (kernel.slotMatches root userAddress)).take count

variable (h : FutexTable addresses kernel)

include h

theorem futexWakeFrom_wakes (root userAddress : Word)
    (count : ℕ) {slots : List (Fin 256)} (hnodup : slots.Nodup) (woken : ℕ) :
    Wakes ((taken kernel root userAddress slots (count - woken)).map
        fun i => (kernel.futexWaiters i).thread).toFinset kernel
        (futexWakeFrom root userAddress count slots kernel woken).1 ∧
      (futexWakeFrom root userAddress count slots kernel woken).2 =
        woken + (taken kernel root userAddress slots (count - woken)).length := by
  -- over the slots; a completed thread has no other slot, so the later ones still match
  induction slots generalizing kernel woken with
  | nil => simpa [futexWakeFrom, taken] using Wakes.refl kernel
  | cons i slots ih =>
    rw [List.nodup_cons] at hnodup
    unfold futexWakeFrom
    dsimp only
    split
    next hdone =>
      rw [Nat.sub_eq_zero_of_le hdone]
      simpa [taken] using Wakes.refl kernel
    next hmore =>
    have hmismatch : (!(kernel.futexWaiters i).active ||
        (kernel.futexWaiters i).addressSpaceRoot != root ||
        (kernel.futexWaiters i).userAddress != userAddress) =
          !kernel.slotMatches root userAddress i := by
      simp [slotMatches, bne]
    rw [hmismatch]
    split
    next hskip =>
      rw [Bool.not_eq_true'] at hskip
      have hsame : ∀ n, taken kernel root userAddress (i :: slots) n =
          taken kernel root userAddress slots n := by
        intro n
        simp [taken, hskip]
      rw [hsame]
      exact ih h hnodup.2 woken
    next htake =>
    rw [Bool.not_eq_true', Bool.not_eq_false] at htake
    have hactive : (kernel.futexWaiters i).active = true := by
      simp only [slotMatches, Bool.and_eq_true] at htake
      exact htake.1.1
    have hwakes := h.wakes_complete hactive
    have htable := h.afterFutex
      (futexCompleteThread_step kernel (kernel.futexWaiters i).thread 0)
    have hlater := ih htable hnodup.2 (woken + 1)
    have hmatches : ∀ j ∈ slots, (kernel.futexCompleteThread
        (kernel.futexWaiters i).thread 0).slotMatches root userAddress j =
          kernel.slotMatches root userAddress j := by
      intro j hj
      unfold slotMatches
      rw [hwakes.slots j]
      by_cases hother : (kernel.futexWaiters j).active = true
      · refine .inr fun hmem => ?_
        rw [Finset.mem_singleton] at hmem
        have hij := h.unique i j hactive hother hmem.symm
        exact hnodup.1 (hij ▸ hj)
      · exact .inl (by simpa using hother)
    have htaken : taken (kernel.futexCompleteThread (kernel.futexWaiters i).thread 0) root
        userAddress slots (count - (woken + 1)) =
          taken kernel root userAddress slots (count - (woken + 1)) := by
      unfold taken
      rw [List.filter_congr hmatches]
    have hcons : taken kernel root userAddress (i :: slots) (count - woken) =
        i :: taken kernel root userAddress slots (count - (woken + 1)) := by
      have hcount : count - woken = count - (woken + 1) + 1 := by omega
      simp [taken, htake, hcount]
    have hnames : (taken kernel root userAddress slots (count - (woken + 1))).map
        (fun j => ((kernel.futexCompleteThread (kernel.futexWaiters i).thread
          0).futexWaiters j).thread) =
        (taken kernel root userAddress slots (count - (woken + 1))).map
          fun j => (kernel.futexWaiters j).thread := by
      simp only [hwakes.name]
    rw [htaken, hnames] at hlater
    rw [hcons]
    refine ⟨?_, ?_⟩
    · rw [List.map_cons, List.toFinset_cons]
      exact hwakes.insert hlater.1
    · rw [hlater.2, List.length_cons]
      omega

theorem waitingOn_eq (root userAddress : Word) :
    waitingOn addresses kernel root userAddress =
      (((List.finRange 256).filter (kernel.slotMatches root userAddress)).map
        fun i => (kernel.futexWaiters i).thread).toFinset := by
  ext thread
  simp only [waitingOn, Finset.mem_filter, Finset.mem_univ, true_and, List.mem_toFinset,
    List.mem_map, List.mem_filter, List.mem_finRange, slotMatches, Bool.and_eq_true, beq_iff_eq]
  constructor
  · rintro ⟨hwaiting, hroot, haddress⟩
    obtain ⟨i, hactive, rfl⟩ := h.listed thread hwaiting
    rw [(h.slot i hactive).root, Option.some.injEq] at hroot
    rw [(h.slot i hactive).address, Option.some.injEq] at haddress
    exact ⟨i, ⟨⟨hactive, hroot⟩, haddress⟩, rfl⟩
  · rintro ⟨i, ⟨⟨hactive, rfl⟩, rfl⟩, rfl⟩
    exact ⟨(h.slot i hactive).waits, (h.slot i hactive).root, (h.slot i hactive).address⟩

theorem nodup_names {slots : List (Fin 256)}
    (hnodup : slots.Nodup) (hactive : ∀ i ∈ slots, (kernel.futexWaiters i).active = true) :
    (slots.map fun i => (kernel.futexWaiters i).thread).Nodup :=
  hnodup.map_on fun i hi j hj hnames => h.unique i j (hactive i hi) (hactive j hj) hnames

theorem wake (root userAddress : Word) (count : ℕ) :
    ∃ woken ⊆ waitingOn addresses kernel root userAddress,
      woken.card = min count (waitingOn addresses kernel root userAddress).card ∧
      (kernel.futexWakeInternal root userAddress count).2 = woken.card ∧
      Wakes woken kernel (kernel.futexWakeInternal root userAddress count).1 := by
  obtain ⟨hwakes, hcount⟩ :=
    h.futexWakeFrom_wakes root userAddress count (List.nodup_finRange 256) 0
  have hall : ((List.finRange 256).filter (kernel.slotMatches root userAddress)).Nodup :=
    (List.nodup_finRange 256).filter _
  have hactive : ∀ i ∈ (List.finRange 256).filter (kernel.slotMatches root userAddress),
      (kernel.futexWaiters i).active = true := by
    intro i hi
    have hmatches := (List.mem_filter.mp hi).2
    simp only [slotMatches, Bool.and_eq_true] at hmatches
    exact hmatches.1.1
  have hsub : (taken kernel root userAddress (List.finRange 256) (count - 0)).Sublist
      ((List.finRange 256).filter (kernel.slotMatches root userAddress)) :=
    List.take_sublist _ _
  have hcard : ((taken kernel root userAddress (List.finRange 256) (count - 0)).map
      fun i => (kernel.futexWaiters i).thread).toFinset.card =
        (taken kernel root userAddress (List.finRange 256) (count - 0)).length := by
    rw [List.toFinset_card_of_nodup, List.length_map]
    exact h.nodup_names (hall.sublist hsub) fun i hi => hactive i (hsub.subset hi)
  refine ⟨_, ?_, ?_, ?_, hwakes⟩
  · rw [h.waitingOn_eq]
    intro thread
    rw [List.mem_toFinset, List.mem_toFinset, List.mem_map, List.mem_map]
    rintro ⟨i, hi, hthread⟩
    exact ⟨i, hsub.subset hi, hthread⟩
  · rw [hcard, h.waitingOn_eq, List.toFinset_card_of_nodup (h.nodup_names hall hactive),
      List.length_map]
    simp [taken]
  · rw [hcard]
    exact hcount.trans (Nat.zero_add _)

end FutexTable

/-- A `FUTEX_WAKE` that passes the checks of `sys_futex` and
`process_futex_wake`, by a thread of the given process. -/
structure FutexWakeCall (kernel : Kernel) (process : ProcId) (user : UserState)
    (userAddress : Word) (count : BitVec 32) : Prop where
  mode : kernel.mode = .user
  call : ∃ operation userTimeout, user.syscallFrame.syscall =
      .futex userAddress operation count userTimeout ∧
    ¬(hasBit operation 256 ∨ operation &&& ~~~(0x7f ||| 128) ≠ 0) ∧ operation &&& 0x7f = 1
  caller : kernel.processCurrent = some process ∧ kernel.running.privilegeRing = 3
  address : userAddress &&& 3 = 0 ∧ vmmIsUserRange userAddress 4 = true

theorem Waitless.enterSyscall {kernel : Kernel} (h : kernel.Waitless) (frame : SyscallFrame) :
    kernel.enterSyscall frame = kernel.setThread kernel.current
      { kernel.running with
        savedInterruptFrame := some (.stackTop kernel.current)
        savedFrameKind := .syscall
        frame := frame.raw } := by
  unfold Kernel.enterSyscall processReapPending
  dsimp only
  split
  · rfl
  next parent _ => exact if_pos (h.pending parent)

theorem FutexSteady.waitingOn_entered {addresses : FutexAddresses} {kernel : Kernel}
    (h : FutexSteady addresses kernel) (frame : SyscallFrame) (root userAddress : Word) :
    waitingOn addresses (kernel.enterSyscall frame) root userAddress =
      waitingOn addresses kernel root userAddress := by
  have hmove : Move .kernelTick kernel (kernel.enterSyscall frame) := by
    rw [h.waitless.enterSyscall]
    exact .entered kernel frame
  have hwaiting : ∀ thread, ((kernel.enterSyscall frame).threads thread).futexWaiting =
      (kernel.threads thread).futexWaiting := by
    intro thread
    rw [h.waitless.enterSyscall, setThread_threads]
    split
    next heq => rw [heq]; rfl
    · rfl
  unfold waitingOn
  simp only [hwaiting, hmove.sched.addressSpaceOf]

theorem futexWakeInternal_zero (kernel : Kernel) (root userAddress : Word) :
    kernel.futexWakeInternal root userAddress 0 = (kernel, 0) := by
  unfold futexWakeInternal
  cases List.finRange 256 with
  | nil => rfl
  | cons => exact if_pos (Nat.zero_le 0)

theorem FutexSteady.wakeCall {addresses : FutexAddresses} {kernel : Kernel}
    (h : FutexSteady addresses kernel) {process : ProcId} {user : UserState} {userAddress : Word}
    {count : BitVec 32} (hcall : FutexWakeCall kernel process user userAddress count)
    (answers : Answers) :
    ∃ next, ∃ woken ⊆ waitingOn addresses kernel (kernel.processes process).addressSpaceRoot
        userAddress,
      woken.card = min count.toNat (waitingOn addresses kernel
        (kernel.processes process).addressSpaceRoot userAddress).card ∧
      kernel.step (.syscall user answers) = some next ∧
      syscallDispatch answers (kernel.enterSyscall user.syscallFrame) user.syscallFrame =
        .returned (BitVec.ofNat 64 woken.card) next ∧
      Wakes woken (kernel.enterSyscall user.syscallFrame) next := by
  obtain ⟨hmode, ⟨operation, userTimeout, hsyscall, hvalid, hwake⟩, ⟨hprocess, hring⟩,
    haligned, hrange⟩ := hcall
  have hsteady : Event.kernelTick.Steady := trivial
  have hentered : FutexKept addresses (kernel.enterSyscall user.syscallFrame) :=
    (h.kept (by rw [hmode]; rfl)).afterChanges hsteady (enterSyscall_changes kernel _)
  have hslot := enterSyscall_running kernel user.syscallFrame
  have hcaller : (kernel.enterSyscall user.syscallFrame).processCurrent = some process := by
    rw [processCurrent, hslot]
    exact hprocess
  have hroot : (kernel.enterSyscall user.syscallFrame).processes = kernel.processes := by
    rw [h.waitless.enterSyscall]
    rfl
  have hchecks : ¬((kernel.enterSyscall user.syscallFrame).running.privilegeRing ≠ 3 ∨
      userAddress &&& 3 ≠ 0 ∨ (!vmmIsUserRange userAddress 4) = true) := by
    rw [hslot]
    rintro (hne | hne | hne)
    · exact hne hring
    · exact hne haligned
    · rw [hrange] at hne
      cases hne
  obtain ⟨woken, hsub, hcard, hcount, hwakes⟩ := hentered.table.wake
    (kernel.processes process).addressSpaceRoot userAddress count.toNat
  rw [h.waitingOn_entered] at hsub hcard
  -- the call with count zero returns before the loop, which would wake nobody
  have hreturns : (kernel.enterSyscall user.syscallFrame).processFutexWake userAddress count.toNat =
      (BitVec.ofNat 64 woken.card, ((kernel.enterSyscall user.syscallFrame).futexWakeInternal
        (kernel.processes process).addressSpaceRoot userAddress count.toNat).1) := by
    rw [← hcount, processFutexWake, hcaller]
    dsimp only
    rw [if_neg hchecks, hroot]
    split
    next hzero => rw [hzero, futexWakeInternal_zero]; rfl
    · rfl
  have hdispatch : syscallDispatch answers (kernel.enterSyscall user.syscallFrame)
      user.syscallFrame = .returned (BitVec.ofNat 64 woken.card)
        ((kernel.enterSyscall user.syscallFrame).futexWakeInternal
          (kernel.processes process).addressSpaceRoot userAddress count.toNat).1 := by
    rw [syscallDispatch, hsyscall]
    dsimp only [sysFutex]
    rw [if_neg hvalid, if_neg (by rw [hwake]; decide), if_pos hwake, hreturns]
  refine ⟨_, woken, hsub, hcard, ?_, hdispatch, hwakes⟩
  rw [step, if_pos hmode, hdispatch]
  rfl

end Kernel

/-- In every run without `wait4` and exec, with the address of each blocking
`FUTEX_WAIT` noted: a thread is marked as waiting exactly when exactly one active
slot names it, and an active slot names a marked thread and holds the address it
waits on and the root of its address space.  A `FUTEX_WAKE` that passes its
checks returns the smaller of its count and the number of threads that wait on
the address in the address space of the caller; that many of these threads are
made ready and lose their slots, and no other thread or slot changes. -/
theorem futex_table_exact {root entry stack : Word} {events : List Event} {last : Kernel}
    {addresses : FutexAddresses} (hevents : ∀ event ∈ events, event.waitsOrExecs = false)
    (hrun : run (track Kernel.step noteAddress) (launched root entry stack, fun _ => none)
      events = some (last, addresses)) :
    (∀ thread, (last.threads thread).futexWaiting = true ↔
      ∃! i, (last.futexWaiters i).active = true ∧ (last.futexWaiters i).thread = thread) ∧
    (∀ i, (last.futexWaiters i).active = true →
      (last.threads (last.futexWaiters i).thread).futexWaiting = true ∧
        addresses (last.futexWaiters i).thread = some (last.futexWaiters i).userAddress ∧
        last.addressSpaceOf (last.futexWaiters i).thread =
          some (last.futexWaiters i).addressSpaceRoot) ∧
    ∀ (process : ProcId) (user : UserState) (userAddress : Word) (count : BitVec 32)
      (answers : Answers), last.FutexWakeCall process user userAddress count →
      ∃ next, ∃ woken ⊆ Kernel.waitingOn addresses last (last.processes process).addressSpaceRoot
          userAddress,
        woken.card = min count.toNat (Kernel.waitingOn addresses last
          (last.processes process).addressSpaceRoot userAddress).card ∧
        last.step (.syscall user answers) = some next ∧
        Kernel.syscallDispatch answers (last.enterSyscall user.syscallFrame) user.syscallFrame =
          .returned (BitVec.ofNat 64 woken.card) next ∧
        Kernel.Wakes woken (last.enterSyscall user.syscallFrame) next := by
  have hsteady := Kernel.FutexSteady.afterRun hevents hrun
  have htable := hsteady.table
  refine ⟨?_, ?_, fun process user userAddress count answers hcall =>
    hsteady.wakeCall hcall answers⟩
  · intro thread
    constructor
    · intro hwaiting
      obtain ⟨i, hactive, hi⟩ := htable.listed thread hwaiting
      refine ⟨i, ⟨hactive, hi⟩, ?_⟩
      rintro j ⟨hactive', hj⟩
      exact htable.unique j i hactive' hactive (hj.trans hi.symm)
    · rintro ⟨i, ⟨hactive, rfl⟩, -⟩
      exact (htable.slot i hactive).waits
  · intro i hactive
    obtain ⟨hwaits, haddress, hroot, -⟩ := htable.slot i hactive
    exact ⟨hwaits, haddress, hroot⟩

theorem futex_table_exact_woken :
    ∃ last addresses, run (track Kernel.step noteAddress)
        (sampleKernel, fun _ => none) futexWaitingRun = some (last, addresses) ∧
      (∃! i, (last.futexWaiters i).active = true ∧ (last.futexWaiters i).thread = 2) ∧
      ∃ next woken, last.step (.call 202 [0x6000, 1, 5, 0]) = some next ∧
        woken = {2} ∧ Kernel.Wakes woken
          (last.enterSyscall (UserState.calling 202 [0x6000, 1, 5, 0]).syscallFrame) next := by
  have hfacts : (run (track Kernel.step noteAddress)
      (sampleKernel, fun _ => none) futexWaitingRun).map
        (fun last => (last.1.mode, (last.1.threads 2).futexWaiting, last.1.processCurrent,
          last.1.running.privilegeRing,
          Kernel.waitingOn last.2 last.1 (last.1.processes 1).addressSpaceRoot 0x6000)) =
      some (.user, true, some 1, 3, {2}) := by
    decide +kernel
  obtain ⟨⟨last, addresses⟩, hrun, hvalues⟩ := Option.map_eq_some_iff.1 hfacts
  simp only [Prod.mk.injEq] at hvalues
  obtain ⟨hmode, hwaiting, hprocess, hring, hwaiters⟩ := hvalues
  obtain ⟨hmarked, -, hwake⟩ := futex_table_exact (by decide) hrun
  have hcall : last.FutexWakeCall 1 (.calling 202 [0x6000, 1, 5, 0]) 0x6000 5 :=
    ⟨hmode, ⟨1, 0, by decide, by decide, by decide⟩, ⟨hprocess, hring⟩, by decide, by decide⟩
  obtain ⟨next, woken, hsub, hcard, hstep, -, hwakes⟩ := hwake 1 _ _ _ (willing []) hcall
  refine ⟨last, addresses, hrun, (hmarked 2).mp hwaiting, next, woken, hstep, ?_, hwakes⟩
  rw [hwaiters] at hsub hcard
  exact Finset.eq_of_subset_of_card_le hsub (by rw [hcard]; decide)

end NPKernel
