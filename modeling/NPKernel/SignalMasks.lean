import NPKernel.RunningThread

/-!
# Signals that cannot be masked

`rt_sigprocmask` and `ppoll` remove SIGKILL and SIGSTOP from every mask they
set.  The entry of a handler adds the mask of its action as the user gave it
to `rt_sigaction`, which does not look at it.  The mask saved by the entry and
restored by `rt_sigreturn`, and the masks copied by fork and clone, are then
only as good as the actions.
-/

namespace NPKernel

open GuardedRuns

def Maskable (mask : Word) : Prop :=
  mask &&& signalBit 9 = 0 ∧ mask &&& signalBit 19 = 0

instance (mask : Word) : Decidable (Maskable mask) :=
  inferInstanceAs (Decidable (_ ∧ _))

theorem maskable_zero : Maskable 0 := by decide

theorem Maskable.or {first second : Word} (h : Maskable first) (h' : Maskable second) :
    Maskable (first ||| second) := by
  have hdistrib : ∀ bit : Word, first &&& bit = 0 → second &&& bit = 0 →
      (first ||| second) &&& bit = 0 := by
    intro bit hfirst hsecond
    rw [BitVec.and_comm, BitVec.and_or_distrib_left, BitVec.and_comm bit first,
      BitVec.and_comm bit second, hfirst, hsecond]
    rfl
  exact ⟨hdistrib _ h.1 h'.1, hdistrib _ h.2 h'.2⟩

theorem maskable_sanitised (mask : Word) :
    Maskable (mask &&& ~~~signalBit 9 &&& ~~~signalBit 19) := by
  constructor
  · rw [BitVec.and_assoc, BitVec.and_assoc, BitVec.and_comm (~~~signalBit 19) (signalBit 9),
      ← BitVec.and_assoc (~~~signalBit 9), BitVec.and_comm (~~~signalBit 9) (signalBit 9)]
    simp
  · rw [BitVec.and_assoc, BitVec.and_comm (~~~signalBit 19) (signalBit 19)]
    simp

theorem maskable_shift : ∀ bit : Fin 64, bit.val ≠ 8 → bit.val ≠ 18 →
    Maskable ((1 : Word) <<< BitVec.ofNat 64 bit.val) := by
  decide

theorem maskable_signalBit {signal : Word} (h : signalUncatchable signal = false) :
    Maskable (signalBit signal) := by
  unfold signalBit
  split
  next hrange =>
    obtain ⟨hlow, hhigh⟩ := hrange
    simp only [BitVec.le_def, BitVec.reduceToNat] at hlow hhigh
    have hbit : signal - 1 = BitVec.ofNat 64 (signal.toNat - 1) := by
      bv_omega
    simp only [signalUncatchable, Bool.or_eq_false_iff, beq_eq_false_iff_ne, ne_eq] at h
    rw [hbit]
    refine maskable_shift ⟨signal.toNat - 1, by omega⟩ ?_ ?_
    · intro heq
      exact h.1 (by simp only at heq; bv_omega)
    · intro heq
      exact h.2 (by simp only at heq; bv_omega)
  · exact maskable_zero

structure Kernel.MaskSound (kernel : Kernel) : Prop where
  blocked : ∀ thread, Maskable (kernel.threads thread).signalBlocked
  saved : ∀ thread, Maskable (kernel.threads thread).signalSavedMask
  actions : ∀ process signal, Maskable ((kernel.processes process).signalActions signal).mask

namespace Kernel.MaskSound

variable {kernel after : Kernel}

theorem setThread (h : kernel.MaskSound) {thread : ThreadId} {slot : ThreadSlot}
    (hthreads : after.threads = Function.update kernel.threads thread slot)
    (hblocked : Maskable slot.signalBlocked) (hsaved : Maskable slot.signalSavedMask)
    (hactions : ∀ process signal, Maskable ((after.processes process).signalActions signal).mask) :
    after.MaskSound := by
  refine ⟨?_, ?_, hactions⟩ <;> intro other <;> rw [hthreads, Function.update_apply] <;> split
  · exact hblocked
  · exact h.blocked other
  · exact hsaved
  · exact h.saved other

theorem setProcess (h : kernel.MaskSound) {process : ProcId} {slot : ProcessSlot}
    (hslot : ∀ signal, Maskable (slot.signalActions signal).mask) (other : ProcId) (signal : ℕ) :
    Maskable (((kernel.setProcess process slot).processes other).signalActions signal).mask := by
  rw [setProcess_processes]
  split
  · exact hslot signal
  · exact h.actions other signal

theorem afterSched (h : kernel.MaskSound) (hstep : SchedStep kernel after) : after.MaskSound where
  blocked thread := by
    rw [hstep.field (fun slot => slot.signalBlocked) (fun _ => rfl)]
    exact h.blocked thread
  saved thread := by
    rw [hstep.field (fun slot => slot.signalSavedMask) (fun _ => rfl)]
    exact h.saved thread
  actions process signal := by
    rw [hstep.processField (fun slot => slot.signalActions) (fun _ => rfl)]
    exact h.actions process signal

theorem afterEnd (h : kernel.MaskSound) {ends : ThreadId → Prop} {ended : Kernel}
    (hstep : EndStep ends kernel ended) {process : ProcId} {slot : ProcessSlot}
    (hslot : slot.signalActions = (kernel.processes process).signalActions) :
    (ended.setProcess process slot).MaskSound where
  blocked thread := by
    rw [setProcess_threads, hstep.field (fun slot => slot.signalBlocked) (fun _ _ => rfl)
      (fun _ => rfl)]
    exact h.blocked thread
  saved thread := by
    rw [setProcess_threads, hstep.field (fun slot => slot.signalSavedMask) (fun _ _ => rfl)
      (fun _ => rfl)]
    exact h.saved thread
  actions other signal := by
    rw [setProcess_processes, hstep.processes]
    split
    next heq =>
      rw [hslot]
      exact h.actions process signal
    · exact h.actions other signal

theorem takePendingSignal_masks (thread : Thread) (signal : Word) :
    (takePendingSignal thread signal).1.signalBlocked = thread.signalBlocked ∧
      (takePendingSignal thread signal).1.signalSavedMask = thread.signalSavedMask := by
  have hpop : ∀ popped : Thread,
      (signalQueuePop popped signal).1.signalBlocked = popped.signalBlocked ∧
        (signalQueuePop popped signal).1.signalSavedMask = popped.signalSavedMask := by
    intro popped
    unfold signalQueuePop
    split <;> exact ⟨rfl, rfl⟩
  unfold takePendingSignal
  dsimp only
  split <;> exact hpop _

theorem signalQueuePush_masks {thread pushed : Thread} {info : Option SignalInfo}
    (h : info.elim (some thread) (signalQueuePush thread) = some pushed) :
    pushed.signalBlocked = thread.signalBlocked ∧
      pushed.signalSavedMask = thread.signalSavedMask := by
  cases info with
  | none =>
    cases h
    exact ⟨rfl, rfl⟩
  | some info =>
    simp only [Option.elim_some, signalQueuePush] at h
    split at h
    · cases h
    · cases h
      exact ⟨rfl, rfl⟩

theorem afterSignal (h : kernel.MaskSound) {process : ProcId} {thread : Thread}
    (hchange : SignalChange (kernel.processes process).toProcess kernel.running.toThread thread) :
    (kernel.putThread thread).MaskSound := by
  have hblocked := h.blocked kernel.current
  have hsaved := h.saved kernel.current
  generalize hrunning : kernel.running.toThread = running at hchange
  have hthread : Maskable thread.signalBlocked ∧ Maskable thread.signalSavedMask := by
    cases hchange with
    | took signal =>
      obtain ⟨hsameBlocked, hsameSaved⟩ := takePendingSignal_masks running signal
      rw [hsameBlocked, hsameSaved, ← hrunning]
      exact ⟨hblocked, hsaved⟩
    | entered frame frameUser signal hcatchable =>
      rw [← hrunning]
      exact ⟨hblocked.or ((maskable_signalBit hcatchable).or (h.actions process _)), hblocked⟩
    | left =>
      rw [← hrunning]
      exact ⟨hsaved, maskable_zero⟩
  exact h.setThread rfl hthread.1 hthread.2 h.actions

end Kernel.MaskSound

/-- An event does not install an action whose mask names SIGKILL or SIGSTOP. -/
def MaskableAction : Event → Prop
  | .syscall user answers =>
    match user.syscallFrame.syscall with
    | .rtSigaction _ userNewAction _ _ =>
      userNewAction ≠ 0 → ∀ action ∈ Kernel.copyinAction answers userNewAction, Maskable action.mask
    | _ => True
  | _ => True

namespace Kernel.MaskSound

variable {kernel after : Kernel}

theorem afterPersonal {event : Event} (h : kernel.MaskSound)
    (hchange : PersonalChange event kernel after) : after.MaskSound := by
  cases hchange with
  | signal _ hthread => exact h.afterSignal hthread
  | masked mask =>
    exact h.setThread rfl (maskable_sanitised _) (h.saved kernel.current) h.actions
  | queued signal _ hpushed =>
    obtain ⟨hblocked, hsaved⟩ := signalQueuePush_masks hpushed
    refine h.setThread rfl ?_ ?_ h.actions
    · exact hblocked ▸ h.blocked _
    · exact hsaved ▸ h.saved _
  | bases => exact h.setThread rfl (h.blocked kernel.current) (h.saved kernel.current) h.actions
  | tidAddress =>
    exact h.setThread rfl (h.blocked kernel.current) (h.saved kernel.current) h.actions

theorem afterChange {event : Event} (hevent : MaskableAction event) (h : kernel.MaskSound)
    (hchange : Change event kernel after) : after.MaskSound := by
  cases hchange with
  | moved hmove => exact h.afterSched hmove.sched
  | personal hpersonal => exact h.afterPersonal hpersonal
  | action hsyscall hcall hread hprocess =>
    refine ⟨h.blocked, h.saved, ?_⟩
    subst hsyscall
    simp only [MaskableAction, hcall] at hevent
    intro process signal
    refine h.setProcess ?_ process signal
    intro number
    dsimp only
    rw [Function.update_apply]
    split
    · exact hevent hread.1 _ hread.2
    · exact h.actions _ number
  | forked root =>
    refine h.setThread rfl ?_ maskable_zero (h.setProcess (h.actions _))
    unfold forkThread
    generalize (kernel.processes _).mainThread = main
    cases main with
    | none => exact maskable_zero
    | some main => exact h.blocked main
  | cloned =>
    exact h.setThread rfl (h.blocked kernel.current) maskable_zero (h.setProcess (h.actions _))
  | clearedThread => exact h.setThread rfl maskable_zero maskable_zero h.actions
  | clearedProcess => exact ⟨h.blocked, h.saved, h.setProcess fun _ => maskable_zero⟩
  | threadEnded _ _ _ hended => exact h.afterEnd hended rfl
  | processEnded _ _ _ _ hended => exact h.afterEnd hended rfl
  | reaped =>
    refine ⟨?_, ?_, h.setProcess fun _ => maskable_zero⟩ <;> intro thread <;> dsimp only <;>
      split
    · exact maskable_zero
    · exact h.blocked thread
    · exact maskable_zero
    · exact h.saved thread

theorem afterTransition {event : Event} (hevent : MaskableAction event) (h : kernel.MaskSound)
    (htransition : Transition event kernel after) : after.MaskSound := by
  cases htransition with
  | changed hchange => exact h.afterChange hevent hchange
  | switched hswitch => exact h.afterSched hswitch.sched

theorem afterExec (h : kernel.MaskSound) (answers : Answers) :
    (kernel.processExecCurrent answers).2.MaskSound := by
  have hcaller : ∀ process staged, (kernel.execCaller process staged).MaskSound := by
    intro process staged
    exact h.setThread rfl maskable_zero maskable_zero (h.setProcess fun _ => maskable_zero)
  rcases processExecCurrent_cases answers kernel with ⟨-, heq⟩ |
    ⟨process, staged, -, -, -, ⟨-, heq⟩ | ⟨main, -, -, heq⟩⟩
  · rw [heq]
    exact h
  · rw [heq]
    exact hcaller process staged
  · rw [heq]
    have hinstalled := hcaller process staged
    exact hinstalled.setThread rfl (hinstalled.blocked main) (hinstalled.saved main)
      hinstalled.actions

theorem launched (root entry stack : Word) : (launched root entry stack).MaskSound := by
  refine ⟨?_, ?_, ?_⟩
  · intro thread
    simp only [NPKernel.launched]
    split_ifs <;> exact maskable_zero
  · intro thread
    simp only [NPKernel.launched]
    split_ifs <;> exact maskable_zero
  · intro process signal
    simp only [NPKernel.launched]
    split_ifs <;> exact maskable_zero

end Kernel.MaskSound

/-- In every run in which no action is installed whose mask names SIGKILL or
SIGSTOP, no thread ever masks either. -/
theorem kill_and_stop_never_masked {root entry stack : Word} {events : List Event} {last : Kernel}
    (hguard : Guarded Kernel.step (fun _ event => MaskableAction event)
      (launched root entry stack) events)
    (hrun : run Kernel.step (launched root entry stack) events = some last) (thread : ThreadId) :
    (last.threads thread).signalBlocked &&& signalBit 9 = 0 ∧
      (last.threads thread).signalBlocked &&& signalBit 19 = 0 := by
  have hsound : last.MaskSound := by
    refine Kernel.invariant_of_transitions (.launched root entry stack) hguard hrun ?_ ?_
    · intro _ event before after hevent h htransition
      exact h.afterTransition hevent htransition
    · intro kernel user answers _ _ _ _ hentered
      exact hentered.afterExec answers
  exact hsound.blocked thread

instance (event : Event) : Decidable (MaskableAction event) := by
  unfold MaskableAction
  split
  · split <;> infer_instance
  · infer_instance

/-- A program installs an action for SIGUSR1 with the given mask and sends
itself the signal. -/
def usr1Run (mask : Word) : List Event :=
  [.call 13 [10, 0x500000, 0, 8] (willing [0x400200, 0, 0x400300, mask]), .call 62 [0, 10]]

def usr1Masked (mask : Word) : Option Word :=
  (run Kernel.step sampleKernel (usr1Run mask)).map fun last => (last.threads 2).signalBlocked

theorem kill_and_stop_never_masked_usr1 :
    ∃ last, run Kernel.step sampleKernel (usr1Run 0x800) = some last ∧
      (last.threads 2).signalBlocked = 0xa00 ∧
      (last.threads 2).signalBlocked &&& signalBit 9 = 0 ∧
      (last.threads 2).signalBlocked &&& signalBit 19 = 0 := by
  have hmasked : usr1Masked 0x800 = some 0xa00 := by decide +kernel
  obtain ⟨last, hrun, hblocked⟩ := Option.map_eq_some_iff.1 hmasked
  have hguard : Guarded Kernel.step (fun _ event => MaskableAction event)
      sampleKernel (usr1Run 0x800) := by decide
  exact ⟨last, hrun, hblocked, kill_and_stop_never_masked hguard hrun 2⟩

/-- The action's mask goes into the blocked mask as it was installed. -/
theorem handler_entry_masks_kill_and_stop :
    ¬ ∀ (events : List Event) (last : Kernel) (thread : ThreadId),
      run Kernel.step sampleKernel events = some last →
        (last.threads thread).signalBlocked &&& signalBit 9 = 0 ∧
          (last.threads thread).signalBlocked &&& signalBit 19 = 0 := by
  intro h
  have hmasked : usr1Masked 0x40100 = some 0x40300 := by decide +kernel
  obtain ⟨last, hrun, hblocked⟩ := Option.map_eq_some_iff.1 hmasked
  have hkill := (h _ last 2 hrun).1
  rw [hblocked] at hkill
  exact absurd hkill (by decide)

end NPKernel
