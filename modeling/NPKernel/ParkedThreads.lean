import NPKernel.RunningThread

/-!
# Threads that do not run

While a thread does not run, an event can wake it, store a word at the start of
its saved frame, or end it.  Whatever else the scheduler keeps of it stays as it
was when the thread was left, and that is what it goes on with when the
scheduler chooses it again.
-/

namespace NPKernel

open RegisterStack GuardedRuns

/-- What the end of a child stores in the frame of its waiting parent: one of the
pids given out so far, or the error for a status that could not be stored. -/
def ChildReport (nextPid : ℕ) (word : Word) : Prop :=
  word = -PROCESS_EFAULT ∨ ∃ pid, 0 < pid ∧ pid < nextPid ∧ word = BitVec.ofNat 64 pid

theorem ChildReport.mono {nextPid later : ℕ} {word : Word} (h : ChildReport nextPid word)
    (hlater : nextPid ≤ later) : ChildReport later word := by
  rcases h with hfault | ⟨pid, hpos, hlt, hword⟩
  · exact .inl hfault
  · exact .inr ⟨pid, hpos, hlt.trans_le hlater, hword⟩

/-- The slot is still that of the same thread, which has not been touched or
has been woken, where the end of a child may be reported at the start of its frame. -/
structure ThreadSlot.Rested (nextPid : ℕ) (before after : ThreadSlot) : Prop where
  tid : after.tid = before.tid
  kept : after.scheduling = before.scheduling ∨
    before.state = .blocked ∧ ∃ word : Word, (word = before.frame 0 ∨ ChildReport nextPid word) ∧
      after.scheduling =
        ({ before with
          state := .ready
          frame := Function.update before.frame 0 word } : ThreadSlot).scheduling

namespace ThreadSlot.Rested

variable {nextPid : ℕ} {slot : ThreadSlot}

theorem refl (slot : ThreadSlot) : Rested nextPid slot slot := ⟨rfl, .inl rfl⟩

theorem woken (hblocked : slot.state = .blocked) {word : Word}
    (hword : word = slot.frame 0 ∨ ChildReport nextPid word) :
    Rested nextPid slot
      { slot with state := .ready, frame := Function.update slot.frame 0 word } :=
  ⟨rfl, .inr ⟨hblocked, word, hword, rfl⟩⟩

theorem readied (hblocked : slot.state = .blocked) :
    Rested nextPid slot { slot with state := .ready } := by
  refine ⟨rfl, .inr ⟨hblocked, slot.frame 0, .inl rfl, ?_⟩⟩
  rw [Function.update_eq_self]

theorem of_completed {before after : ThreadSlot} (h : before.Completed after) :
    Rested nextPid before after := by
  rcases h with rfl | ⟨result, rfl⟩
  · exact .refl _
  cases hstate : before.state with
  | blocked =>
    refine ⟨rfl, .inr ⟨hstate, before.frame 0, .inl rfl, ?_⟩⟩
    rw [Function.update_eq_self, scheduling, scheduling, futexCompleted, hstate]
    rfl
  | unused | ready | running | zombie =>
    refine ⟨rfl, .inl ?_⟩
    rw [scheduling, scheduling, futexCompleted, hstate]
    rfl

variable {before after : ThreadSlot} (h : Rested nextPid before after)
include h

theorem mono {later : ℕ} (hlater : nextPid ≤ later) : Rested later before after := by
  refine ⟨h.tid, ?_⟩
  rcases h.kept with hkept | ⟨hblocked, word, hword, hwoken⟩
  · exact .inl hkept
  · exact .inr ⟨hblocked, word, hword.imp_right (·.mono hlater), hwoken⟩

theorem trans {last : ThreadSlot} (h' : Rested nextPid after last) :
    Rested nextPid before last := by
  refine ⟨h'.tid.trans h.tid, ?_⟩
  rcases h.kept with hkept | ⟨hblocked, word, hword, hwoken⟩
  · rcases h'.kept with hlater | ⟨hblocked, word, hword, hwoken⟩
    · exact .inl (hlater.trans hkept)
    · simp only [scheduling, Prod.mk.injEq] at hkept hwoken ⊢
      grind
  · refine .inr ⟨hblocked, word, hword, ?_⟩
    rcases h'.kept with hlater | ⟨hagain, -⟩
    · exact hlater.trans hwoken
    · simp only [scheduling, Prod.mk.injEq] at hwoken
      rw [hwoken.1] at hagain
      cases hagain

theorem field {α : Type*} (view : ThreadState × ℕ × Option FramePtr × FrameKind × ℕ ×
      Stack Word × Option YieldSite × Option ProcId → α)
    (hview : ∀ (slot : ThreadSlot) (state : ThreadState) (frame : Stack Word),
      view ({ slot with state := state, frame := frame } : ThreadSlot).scheduling =
        view slot.scheduling) :
    view after.scheduling = view before.scheduling := by
  rcases h.kept with hkept | ⟨-, word, -, hwoken⟩
  · rw [hkept]
  · rw [hwoken, hview]

theorem ring : after.privilegeRing = before.privilegeRing :=
  h.field (fun scheduling => scheduling.2.1) fun _ _ _ => rfl

theorem saved : after.savedInterruptFrame = before.savedInterruptFrame :=
  h.field (fun scheduling => scheduling.2.2.1) fun _ _ _ => rfl

theorem kind : after.savedFrameKind = before.savedFrameKind :=
  h.field (fun scheduling => scheduling.2.2.2.1) fun _ _ _ => rfl

theorem live : after.state.live = before.state.live := by
  rcases h.kept with hkept | ⟨hblocked, word, -, hwoken⟩
  · rw [show after.state = before.state from congrArg Prod.fst hkept]
  · rw [show after.state = .ready from congrArg Prod.fst hwoken, hblocked]
    rfl

theorem frame {slot : ℕ} (hslot : slot ≠ 0) : after.frame slot = before.frame slot := by
  rcases h.kept with hkept | ⟨-, word, -, hwoken⟩
  · simp only [scheduling, Prod.mk.injEq] at hkept
    rw [hkept.2.2.2.2.2.1]
  · simp only [scheduling, Prod.mk.injEq] at hwoken
    rw [hwoken.2.2.2.2.2.1, Function.update_of_ne hslot]

theorem first : after.frame 0 = before.frame 0 ∨ ChildReport nextPid (after.frame 0) := by
  rcases h.kept with hkept | ⟨-, word, hword, hwoken⟩
  · simp only [scheduling, Prod.mk.injEq] at hkept
    exact .inl (by rw [hkept.2.2.2.2.2.1])
  · simp only [scheduling, Prod.mk.injEq] at hwoken
    rw [hwoken.2.2.2.2.2.1, Function.update_self]
    exact hword

end ThreadSlot.Rested

structure ThreadSlot.Starts (slot : ThreadSlot) (thread : ThreadId) : Prop where
  ring : slot.privilegeRing = 3
  saved : slot.savedInterruptFrame = some (.stackTop thread)
  selector : isUserSelector (slot.frame 16) = true

theorem ThreadSlot.Starts.rested {nextPid : ℕ} {before after : ThreadSlot} {thread : ThreadId}
    (h : before.Starts thread) (hrested : Rested nextPid before after) : after.Starts thread where
  ring := hrested.ring.trans h.ring
  saved := hrested.saved.trans h.saved
  selector := by
    rw [hrested.frame (by decide)]
    exact h.selector

namespace Kernel

/-- An event leaves the thread aside: it rests, or its slot is given up and may
already belong to a later thread. -/
structure Rests (before after : Kernel) (thread : ThreadId) : Prop where
  next : before.nextTid ≤ after.nextTid ∧ before.nextPid ≤ after.nextPid
  slot : ThreadSlot.Rested after.nextPid (before.threads thread) (after.threads thread) ∨
    (after.threads thread).state.live = false ∨
    before.nextTid ≤ (after.threads thread).tid ∧ (after.threads thread).Starts thread

namespace Rests

variable {thread : ThreadId}

theorem refl (kernel : Kernel) (thread : ThreadId) : Rests kernel kernel thread :=
  ⟨⟨le_rfl, le_rfl⟩, .inl (.refl _)⟩

theorem of_slot {before after : Kernel}
    (hnext : before.nextTid ≤ after.nextTid ∧ before.nextPid ≤ after.nextPid)
    (hslot : after.threads thread = before.threads thread) : Rests before after thread :=
  ⟨hnext, .inl (by rw [hslot]; exact .refl _)⟩

theorem trans {first second third : Kernel} (h : Rests first second thread)
    (h' : Rests second third thread) : Rests first third thread := by
  refine ⟨⟨h.next.1.trans h'.next.1, h.next.2.trans h'.next.2⟩, ?_⟩
  rcases h'.slot with hrested | hdead | ⟨hlater, hstarts⟩
  · rcases h.slot with hearlier | hdead | ⟨hlater, hstarts⟩
    · exact .inl ((hearlier.mono h'.next.2).trans hrested)
    · exact .inr (.inl (hrested.live.trans hdead))
    · exact .inr (.inr ⟨hrested.tid.symm ▸ hlater, hstarts.rested hrested⟩)
  · exact .inr (.inl hdead)
  · exact .inr (.inr ⟨h.next.1.trans hlater, hstarts⟩)

end Rests

/-- Every thread number has been given out, and every saved frame is on the
stack of its own thread. -/
structure Framed (kernel : Kernel) : Prop where
  numbered : ∀ thread, (kernel.threads thread).tid < kernel.nextTid
  own : ∀ thread frame, (kernel.threads thread).savedInterruptFrame = some frame →
    frame = .stackTop thread ∨ frame = .belowContext thread

namespace Framed

variable {kernel after : Kernel}

variable {thread : ThreadId} {slot : ThreadSlot}

variable (h : kernel.Framed)

include h

theorem setThread (htid : slot.tid < kernel.nextTid)
    (hframe : ∀ frame, slot.savedInterruptFrame = some frame →
      frame = .stackTop thread ∨ frame = .belowContext thread) :
    (kernel.setThread thread slot).Framed := by
  constructor
  · intro other
    rw [setThread_threads]
    split
    · exact htid
    · exact h.numbered other
  · intro other frame
    rw [setThread_threads]
    split
    next heq =>
      subst heq
      exact hframe frame
    · exact h.own other frame

/-- Nothing but the numbers and the frame pointers of threads matters. -/
theorem of_fields (hnext : kernel.nextTid ≤ after.nextTid)
    (htid : ∀ thread, (after.threads thread).tid = (kernel.threads thread).tid)
    (hframe : ∀ thread, (after.threads thread).savedInterruptFrame =
      (kernel.threads thread).savedInterruptFrame) : after.Framed := by
  constructor
  · intro thread
    rw [htid]
    exact (h.numbered thread).trans_le hnext
  · intro thread frame
    rw [hframe]
    exact h.own thread frame

theorem of_threads (hnext : kernel.nextTid ≤ after.nextTid)
    (hthreads : after.threads = kernel.threads) : after.Framed :=
  h.of_fields hnext (fun thread => by rw [hthreads]) fun thread => by rw [hthreads]

theorem rewrite (htid : slot.tid = (kernel.threads thread).tid)
    (hframe : slot.savedInterruptFrame = (kernel.threads thread).savedInterruptFrame) :
    (kernel.setThread thread slot).Framed :=
  h.setThread (htid ▸ h.numbered thread) (hframe ▸ h.own thread)

theorem rewritten (hthreads : after.threads = Function.update kernel.threads thread slot)
    (hnext : kernel.nextTid ≤ after.nextTid) (htid : slot.tid = (kernel.threads thread).tid)
    (hframe : slot.savedInterruptFrame = (kernel.threads thread).savedInterruptFrame) :
    after.Framed :=
  (h.rewrite htid hframe).of_threads hnext hthreads

theorem reframe (htid : slot.tid = (kernel.threads thread).tid)
    (hframe : slot.savedInterruptFrame = some (.stackTop thread)) :
    (kernel.setThread thread slot).Framed := by
  refine h.setThread (htid ▸ h.numbered thread) ?_
  intro frame heq
  rw [hframe, Option.some.injEq] at heq
  exact .inl heq.symm

theorem nextTid_pos : 0 < kernel.nextTid :=
  (Nat.zero_le _).trans_lt (h.numbered 0)

end Framed

variable {kernel before after next : Kernel} {thread : ThreadId} {event : Event}

theorem reported_thread_cases (hframed : kernel.Framed)
    {parent child : ProcId} {waiter : ThreadId} {stored : Bool} :
    ∃ word : Word, (word = (kernel.threads waiter).frame 0 ∨
        word = if stored then BitVec.ofNat 64 (kernel.processes child).pid else -PROCESS_EFAULT) ∧
      (kernel.reported parent waiter child stored).threads =
        Function.update kernel.threads waiter
          { kernel.threads waiter with
            state := .ready
            frame := Function.update (kernel.threads waiter).frame 0 word } := by
  have hunwritten : ∀ record : ProcessSlot, ((kernel.setProcess parent record).setThread waiter
      { kernel.threads waiter with state := .ready }).threads =
      Function.update kernel.threads waiter
        { kernel.threads waiter with
          state := .ready
          frame := Function.update (kernel.threads waiter).frame 0
            ((kernel.threads waiter).frame 0) } := by
    intro record
    rw [Function.update_eq_self]
    rfl
  unfold reported
  generalize (if stored then BitVec.ofNat 64 (kernel.processes child).pid else -PROCESS_EFAULT) =
    result
  dsimp only
  unfold writeFrame
  split
  next thread hframe =>
    rcases hframed.own waiter _ hframe with heq | heq
    · obtain rfl : thread = waiter := FramePtr.stackTop.inj heq
      exact ⟨_, .inr rfl, by simp [Kernel.setThread, Kernel.setProcess]⟩
    · cases heq
  · exact ⟨_, .inl rfl, hunwritten _⟩

theorem Rests.rested (h : Rests before after thread)
    (hframed : before.Framed) (hlive : (after.threads thread).state.live = true)
    (htid : (after.threads thread).tid = (before.threads thread).tid) :
    ThreadSlot.Rested after.nextPid (before.threads thread) (after.threads thread) := by
  rcases h.slot with hrested | hdead | ⟨hlater, -⟩
  · exact hrested
  · rw [hlive] at hdead
    cases hdead
  · have hnumber := hframed.numbered thread
    omega

/-! ## Changes -/

theorem Move.current (h : Move event before after) : after.current = before.current := by
  cases h with
  | outside _ _ hcurrent => exact hcurrent
  | futex hstep => exact hstep.current
  | reported answers =>
    rcases wakeParentWaiter_cases answers before _ with hsame | ⟨parent, waiter, stored, -, heq⟩
    · rw [hsame]
    · rw [heq]
      unfold Kernel.reported writeFrame
      dsimp only
      split <;> rfl
  | _ => rfl

theorem PersonalChange.current
    (h : PersonalChange event before after) : after.current = before.current := by
  obtain ⟨thread, slot, rfl, -⟩ := h.setThread
  rfl

theorem Change.current (h : Change event before after) : after.current = before.current := by
  cases h with
  | moved hmove => exact hmove.current
  | personal hpersonal => exact hpersonal.current
  | threadEnded _ _ _ hended => exact hended.current
  | processEnded _ _ _ _ hended => exact hended.current
  | _ => rfl

theorem Changes.current (h : Changes event before after) : after.current = before.current := by
  induction h with
  | refl => rfl
  | tail _ hchange ih => exact hchange.current.trans ih

theorem SchedStep.counts (h : SchedStep before after) :
    before.nextTid ≤ after.nextTid ∧ before.nextPid ≤ after.nextPid :=
  ⟨h.nextTid.ge, h.nextPid.ge⟩

theorem Change.counts (h : Change event before after) :
    before.nextTid ≤ after.nextTid ∧ before.nextPid ≤ after.nextPid := by
  cases h with
  | moved hmove => exact hmove.sched.counts
  | personal hpersonal =>
    obtain ⟨thread, slot, rfl, -⟩ := hpersonal.setThread
    exact ⟨le_rfl, le_rfl⟩
  | threadEnded _ _ _ hended | processEnded _ _ _ _ hended =>
    rw [hended.rest]
    exact ⟨le_rfl, le_rfl⟩
  | action | reaped => exact ⟨le_rfl, le_rfl⟩
  | forked => exact ⟨Nat.le_succ _, Nat.le_succ _⟩
  | cloned | clearedThread => exact ⟨Nat.le_succ _, le_rfl⟩
  | clearedProcess => exact ⟨le_rfl, Nat.le_succ _⟩

theorem Transition.counts (h : Transition event before after) :
    before.nextTid ≤ after.nextTid ∧ before.nextPid ≤ after.nextPid := by
  cases h with
  | changed hchange => exact hchange.counts
  | switched hswitch => exact hswitch.sched.counts

theorem Transitions.counts (h : Transitions event before after) :
    before.nextTid ≤ after.nextTid ∧ before.nextPid ≤ after.nextPid := by
  induction h with
  | refl => exact ⟨le_rfl, le_rfl⟩
  | tail _ htransition ih =>
    exact ⟨ih.1.trans htransition.counts.1, ih.2.trans htransition.counts.2⟩

namespace Framed

variable {kernel after : Kernel} {event : Event}

section

variable (h : kernel.Framed)

include h

theorem afterMove (hmove : Move event kernel after) : after.Framed := by
  have hnext := hmove.sched.counts.1
  cases hmove with
  | outside hthreads => exact h.of_threads hnext hthreads
  | futex hstep =>
    refine h.of_fields hnext ?_ ?_
    · exact hstep.field (fun slot => slot.tid) fun _ _ => rfl
    · exact hstep.field (fun slot => slot.savedInterruptFrame) fun _ _ => rfl
  | reported answers =>
    rcases wakeParentWaiter_cases answers kernel _ with hsame | ⟨parent, waiter, stored, -, heq⟩
    · rw [hsame]
      exact h
    obtain ⟨word, -, hthreads⟩ := reported_thread_cases h
    rw [heq] at hnext ⊢
    exact h.rewritten hthreads hnext rfl rfl
  | reapTaken => exact h.of_threads le_rfl rfl
  | entered | interrupted => exact h.reframe rfl rfl
  | waited | waitEnded | futexBlocked | keyed | terminalBlocked =>
    exact h.rewritten rfl hnext rfl rfl
  | futexEnded | terminalResumed | framed => exact h.rewrite rfl rfl

theorem afterEnded {ended : Kernel} {ends : ThreadId → Prop}
    (hended : EndStep ends kernel ended) : ended.Framed := by
  refine h.of_fields (by rw [hended.rest]) ?_ ?_
  · exact hended.field (fun slot => slot.tid) (fun _ _ => rfl) fun _ => rfl
  · exact hended.field (fun slot => slot.savedInterruptFrame) (fun _ _ => rfl) fun _ => rfl

theorem afterCreated {thread : ThreadId} {slot : ThreadSlot}
    (htid : slot.tid = kernel.nextTid) (hframe : slot.savedInterruptFrame = some (.stackTop thread))
    (hnext : after.nextTid = kernel.nextTid + 1)
    (hthreads : after.threads = Function.update kernel.threads thread slot) : after.Framed := by
  have hlater : ({ kernel with nextTid := kernel.nextTid + 1 } : Kernel).Framed :=
    h.of_threads (Nat.le_succ _) rfl
  have hcreated : (({ kernel with nextTid := kernel.nextTid + 1 } : Kernel).setThread thread
      slot).Framed := by
    refine hlater.setThread (htid ▸ Nat.lt_succ_self _) ?_
    intro frame heq
    rw [hframe, Option.some.injEq] at heq
    exact .inl heq.symm
  exact hcreated.of_threads hnext.ge hthreads

theorem afterChange (hchange : Change event kernel after) : after.Framed := by
  have hnext := hchange.counts.1
  cases hchange with
  | moved hmove => exact h.afterMove hmove
  | personal hpersonal =>
    refine h.of_fields hnext ?_ ?_
    · exact hpersonal.field (fun slot => slot.tid) fun _ => rfl
    · exact hpersonal.field (fun slot => slot.savedInterruptFrame) fun _ => rfl
  | action => exact h.of_threads le_rfl rfl
  | forked | cloned => exact h.afterCreated rfl rfl rfl rfl
  | @clearedThread thread =>
    have hcleared : (kernel.setThread thread ThreadSlot.zero).Framed :=
      h.setThread h.nextTid_pos (by rintro frame ⟨⟩)
    exact hcleared.of_threads (Nat.le_succ _) rfl
  | clearedProcess => exact h.of_threads le_rfl rfl
  | threadEnded _ _ _ hended => exact (h.afterEnded hended).of_threads le_rfl rfl
  | processEnded _ _ _ _ hended => exact (h.afterEnded hended).of_threads le_rfl rfl
  | reaped =>
    constructor
    · intro thread
      dsimp only
      split
      · exact h.nextTid_pos
      · exact h.numbered thread
    · intro thread frame
      dsimp only
      split
      · rintro ⟨⟩
      · exact h.own thread frame

theorem afterSwitch (hswitch : Switch kernel after) : after.Framed := by
  cases hswitch with
  | deactivated =>
    refine h.setThread (h.numbered kernel.current) ?_
    intro frame
    dsimp only
    split
    · exact h.own kernel.current frame
    · rintro ⟨⟩
  | readied => exact h.rewrite rfl rfl
  | @activated next =>
    have hactivated : (kernel.setThread next
        { kernel.threads next with state := .running }).Framed :=
      h.rewrite rfl rfl
    exact activateThread_cases _ h (hactivated.of_threads le_rfl rfl)
  | stored => exact h.rewrite rfl rfl
  | materialized =>
    refine materializeFrame_cases _ h fun _ => h.setThread (h.numbered kernel.current) ?_
    rintro frame ⟨⟩
    exact .inr rfl

theorem afterExec (answers : Answers) : (kernel.processExecCurrent answers).2.Framed := by
  refine h.of_fields (processExecCurrent_fields answers kernel).2.1.ge ?_ ?_
  · exact processExecCurrent_field answers kernel (fun slot => slot.tid) (fun _ _ => rfl)
      fun _ _ => rfl
  · exact processExecCurrent_field answers kernel (fun slot => slot.savedInterruptFrame)
      (fun _ _ => rfl) fun _ _ => rfl

end

theorem launched (root entry stack : Word) : (NPKernel.launched root entry stack).Framed := by
  constructor
  · intro thread
    simp only [NPKernel.launched]
    split_ifs <;> simp [ThreadSlot.zero, Thread.zero]
  · intro thread frame
    simp only [NPKernel.launched]
    split_ifs with h0 h1 h2
    · rintro ⟨⟩
    · rintro ⟨⟩
    · rintro ⟨⟩
      exact .inl (by rw [h2])
    · rintro ⟨⟩

end Framed

/-- Every child has a pid that has been given out. -/
structure Filed (kernel : Kernel) : Prop extends Framed kernel where
  nextPid : 0 < kernel.nextPid
  child : ∀ process, (kernel.processes process).parentPid ≠ 0 →
    0 < (kernel.processes process).pid ∧ (kernel.processes process).pid < kernel.nextPid

namespace Filed

variable {kernel after : Kernel} {event : Event}

section

variable (h : kernel.Filed)

include h

theorem of_fields (hframed : after.Framed) (hnext : kernel.nextPid ≤ after.nextPid)
    (hpid : ∀ process, (after.processes process).pid = (kernel.processes process).pid)
    (hparent : ∀ process, (after.processes process).parentPid =
      (kernel.processes process).parentPid) : after.Filed := by
  refine ⟨hframed, h.nextPid.trans_le hnext, ?_⟩
  intro process
  rw [hpid, hparent]
  exact fun hchild => (h.child process hchild).imp_right (·.trans_le hnext)

theorem of_sched (hframed : after.Framed) (hsched : SchedStep kernel after) : after.Filed :=
  h.of_fields hframed hsched.nextPid.ge (hsched.processField (fun slot => slot.pid) fun _ => rfl)
    (hsched.processField (fun slot => slot.parentPid) fun _ => rfl)

theorem of_update {process : ProcId} {slot : ProcessSlot} (hframed : after.Framed)
    (hprocesses : after.processes = Function.update kernel.processes process slot)
    (hnext : kernel.nextPid ≤ after.nextPid)
    (hslot : slot.parentPid ≠ 0 → 0 < slot.pid ∧ slot.pid < after.nextPid) : after.Filed := by
  refine ⟨hframed, h.nextPid.trans_le hnext, ?_⟩
  intro other
  rw [hprocesses, Function.update_apply]
  split
  · exact hslot
  · exact fun hchild => (h.child other hchild).imp_right (·.trans_le hnext)

theorem afterChange (hchange : Change event kernel after) : after.Filed := by
  have hframed := h.toFramed.afterChange hchange
  have hnext := hchange.counts.2
  cases hchange with
  | moved hmove => exact h.of_sched hframed hmove.sched
  | personal hpersonal =>
    obtain ⟨thread, slot, rfl, -⟩ := hpersonal.setThread
    exact h.of_fields hframed hnext (fun _ => rfl) fun _ => rfl
  | action | cloned => exact h.of_update hframed rfl hnext (h.child _)
  | forked => exact h.of_update hframed rfl hnext fun _ => ⟨h.nextPid, Nat.lt_succ_self _⟩
  | clearedThread => exact h.of_fields hframed hnext (fun _ => rfl) fun _ => rfl
  | clearedProcess | reaped => exact h.of_update hframed rfl hnext fun hchild => absurd rfl hchild
  | threadEnded _ _ _ hended | processEnded _ _ _ _ hended =>
    rw [hended.rest] at hframed ⊢
    exact h.of_update hframed rfl le_rfl (h.child _)

theorem afterTransition (htransition : Transition event kernel after) : after.Filed := by
  cases htransition with
  | changed hchange => exact h.afterChange hchange
  | switched hswitch => exact h.of_sched (h.toFramed.afterSwitch hswitch) hswitch.sched

theorem afterChanges (hchanges : Changes event kernel after) : after.Filed := by
  induction hchanges with
  | refl => exact h
  | tail _ hchange ih => exact ih.afterChange hchange

theorem afterTransitions (htransitions : Transitions event kernel after) : after.Filed := by
  induction htransitions with
  | refl => exact h
  | tail _ htransition ih => exact ih.afterTransition htransition

theorem afterExec (answers : Answers) : (kernel.processExecCurrent answers).2.Filed := by
  refine h.of_fields (h.toFramed.afterExec answers)
    (processExecCurrent_fields answers kernel).1.ge ?_ ?_
  · exact processExecCurrent_processField answers kernel (fun slot => slot.pid) fun _ _ _ => rfl
  · exact processExecCurrent_processField answers kernel (fun slot => slot.parentPid)
      fun _ _ _ => rfl

theorem afterStep {next : Kernel} (hpositioned : kernel.Positioned)
    (hstep : kernel.step event = some next) : next.Filed :=
  step_invariant (fun _ _ h => h.afterTransition) (fun _ answers _ _ _ h => h.afterExec answers)
    hpositioned h hstep

end

theorem launched (root entry stack : Word) : (NPKernel.launched root entry stack).Filed := by
  refine ⟨.launched root entry stack, Nat.succ_pos 2, ?_⟩
  intro process
  simp only [NPKernel.launched]
  split_ifs <;> simp [ProcessSlot.zero, Process.zero]

end Filed

namespace Rests

variable {kernel after : Kernel} {event : Event} {thread : ThreadId}

variable {slot : ThreadSlot}

theorem of_other {other : ThreadId} (hother : thread ≠ other)
    (hnext : kernel.nextTid ≤ after.nextTid ∧ kernel.nextPid ≤ after.nextPid)
    (hthreads : after.threads = Function.update kernel.threads other slot) :
    Rests kernel after thread := by
  refine .of_slot hnext ?_
  rw [hthreads, Function.update_of_ne hother]

theorem of_created {created : ThreadId} (htid : slot.tid = kernel.nextTid)
    (hstarts : slot.Starts created)
    (hnext : kernel.nextTid ≤ after.nextTid ∧ kernel.nextPid ≤ after.nextPid)
    (hthreads : after.threads = Function.update kernel.threads created slot) :
    Rests kernel after thread := by
  by_cases hcreated : thread = created
  · refine ⟨hnext, .inr (.inr ?_)⟩
    rw [hthreads, hcreated, Function.update_self, htid]
    exact ⟨le_rfl, hstarts⟩
  · exact .of_other hcreated hnext hthreads

theorem of_ended {ended : Kernel} {ends : ThreadId → Prop} (hended : EndStep ends kernel ended)
    (process : ProcId) (record : ProcessSlot) :
    Rests kernel (ended.setProcess process record) thread := by
  refine ⟨by rw [hended.rest]; exact ⟨le_rfl, le_rfl⟩, ?_⟩
  rw [setProcess_threads]
  by_cases hends : ends thread
  · refine .inr (.inl ?_)
    rw [hended.zombie hends]
    rfl
  · exact .inl (.of_completed (hended.kept thread hends))

theorem of_reported (h : kernel.Filed) {answers : Answers} {parent child : ProcId}
    {waiter : ThreadId} {stored : Bool}
    (hreports : Reports answers kernel parent waiter child stored) :
    Rests kernel (kernel.reported parent waiter child stored) thread := by
  obtain ⟨word, hword, hthreads⟩ := reported_thread_cases h.toFramed
  have hblocked := (firstBlocked_some hreports.blocked).2
  have hsched : SchedStep kernel (kernel.reported parent waiter child stored) :=
    reported_sched hblocked
  refine ⟨hsched.counts, ?_⟩
  rw [hthreads]
  by_cases hwaiter : thread = waiter
  · rw [hwaiter, Function.update_self]
    refine .inl (.woken hblocked (hword.imp_right ?_))
    rintro rfl
    obtain ⟨hpos, hlt⟩ := h.child child hreports.found.1
    rw [hsched.nextPid]
    split
    · exact .inr ⟨_, hpos, hlt, rfl⟩
    · exact .inl rfl
  · rw [Function.update_of_ne hwaiter]
    exact .inl (.refl _)

theorem of_move (h : kernel.Filed) (hmove : Move event kernel after)
    (hthread : thread ≠ kernel.current) : Rests kernel after thread := by
  have hnext := hmove.sched.counts
  cases hmove with
  | outside hthreads => exact .of_slot hnext (by rw [hthreads])
  | futex hstep => exact ⟨hnext, .inl (.of_completed (hstep.thread thread))⟩
  | reported answers =>
    rcases wakeParentWaiter_cases answers kernel _ with hsame |
      ⟨parent, waiter, stored, hreports, heq⟩
    · rw [hsame]
      exact .refl kernel thread
    · rw [heq]
      exact .of_reported h hreports
  | reapTaken => exact .of_slot hnext rfl
  | @keyed _ other hblocked =>
    by_cases hwoken : thread = other
    · refine ⟨hnext, .inl ?_⟩
      rw [setThread_threads, if_pos hwoken, hwoken]
      exact .readied hblocked
    · exact .of_other hwoken hnext rfl
  | _ => exact .of_other hthread hnext rfl

theorem of_change (h : kernel.Filed) (hchange : Change event kernel after)
    (hthread : thread ≠ kernel.current) : Rests kernel after thread := by
  have hnext := hchange.counts
  cases hchange with
  | moved hmove => exact .of_move h hmove hthread
  | personal hpersonal =>
    refine ⟨hnext, .inl ⟨?_, .inl ?_⟩⟩
    · exact hpersonal.field (fun slot => slot.tid) (fun _ => rfl) thread
    · exact hpersonal.field ThreadSlot.scheduling (fun _ => rfl) thread
  | action => exact .of_slot hnext rfl
  | forked | cloned =>
    refine .of_created rfl ⟨rfl, rfl, ?_⟩ hnext rfl
    exact (by decide : isUserSelector USER_CS = true)
  | @clearedThread cleared =>
    by_cases hcleared : thread = cleared
    · refine ⟨hnext, .inr (.inl ?_)⟩
      dsimp only
      rw [setThread_threads, if_pos hcleared]
      rfl
    · exact .of_other hcleared hnext rfl
  | clearedProcess => exact .of_slot hnext rfl
  | threadEnded _ _ _ hended => exact .of_ended hended _ _
  | processEnded _ _ _ _ hended => exact .of_ended hended _ _
  | reaped =>
    refine ⟨hnext, ?_⟩
    dsimp only
    split
    · exact .inr (.inl rfl)
    · exact .inl (.refl _)

theorem of_changes (h : kernel.Filed) (hchanges : Changes event kernel after)
    (hthread : thread ≠ kernel.current) : Rests kernel after thread := by
  induction hchanges with
  | refl => exact .refl kernel thread
  | tail hbefore hchange ih =>
    have hcurrent := Changes.current hbefore
    exact ih.trans (.of_change (h.afterChanges hbefore) hchange (hcurrent ▸ hthread))

end Rests

theorem preempted_rested {nextPid : ℕ} (kernel : Kernel) (user : UserState)
    (hthread : thread ≠ kernel.current) : ThreadSlot.Rested nextPid (kernel.threads thread)
      ((kernel.preempted user).threads thread) := by
  have hexpired := futexExpireWaiters_step kernel
  rw [preempted, setThread_threads, hexpired.current, if_neg hthread]
  exact .of_completed (hexpired.thread thread)

/-! ## Events -/

theorem processExecCurrent_other {answers : Answers} (hthread : thread ≠ kernel.current)
    (hnext : thread ≠ (kernel.processExecCurrent answers).2.current) :
    (kernel.processExecCurrent answers).2.threads thread = kernel.threads thread := by
  obtain ⟨slot, hslot, heq | ⟨hcurrent, -⟩⟩ := processExecCurrent_thread answers kernel thread
  · rcases hslot with rfl | ⟨hcurrent, -⟩
    · exact heq
    · exact absurd hcurrent hthread
  · exact absurd hcurrent hnext

theorem Handover.rests (h : Handover event kernel next)
    (hfiled : kernel.Filed) (hthread : thread ≠ kernel.current)
    (hnew : thread ≠ next.current) : Rests kernel next thread := by
  cases h with
  | kept hchanges => exact .of_changes hfiled hchanges hthread
  | @yielded answers site chosen hevent _ hnext hother hgone =>
    have hyields : kernel.YieldsTo chosen := ⟨hnext, hother⟩
    have hswitched : Transitions event kernel (kernel.switchedTo site chosen) :=
      switchedTo_transitions site hyields
    have hchanges : Changes event _ _ := goOn_changes site hyields answers
      (kernel.yieldContinuation chosen) fun _ => ⟨answers, hevent⟩
    rw [← hgone] at hchanges
    have hcurrent := Changes.current hchanges
    rw [switchedTo_current site hyields] at hcurrent
    rw [hcurrent] at hnew
    have hslot := switchedTo_other site hyields hthread hnew
    refine (Rests.of_slot hswitched.counts hslot).trans
      (.of_changes (hfiled.afterTransitions hswitched) hchanges ?_)
    rw [switchedTo_current site hyields]
    exact hnew
  | @preempted user answers ticked chosen _ _ _ hsaved hnext hgone =>
    have hswitched : Transitions event _ _ := preemptedTo_transitions hnext
    have hchanges : Changes event _ _ := schedulerPreempt_changes hnext answers
    rw [← hgone] at hchanges
    have hchosen : (ticked.preemptedTo user chosen).materializeFrame.current = chosen :=
      (materializeFrame_current _).trans (preemptedTo_running hnext).2.1
    have hother : thread ≠ chosen := by
      rw [← hchosen, ← Changes.current hchanges]
      exact hnew
    have hslot : (ticked.preemptedTo user chosen).materializeFrame.threads thread =
        (ticked.preempted user).threads thread := by
      rw [materializeFrame_other (by rw [(preemptedTo_running hnext).2.1]; exact hother),
        (preemptedTo_threads hnext).2.2, if_neg hother,
        if_neg (by rw [Changes.current hsaved]; exact hthread)]
    exact (Rests.of_changes hfiled hsaved hthread).trans
      ((Rests.of_slot hswitched.counts hslot).trans
        (.of_changes ((hfiled.afterChanges hsaved).afterTransitions hswitched) hchanges
          (by rw [hchosen]; exact hother)))
  | @execed user answers _ _ _ hexec =>
    have hentered : Changes event kernel (kernel.enterSyscall user.syscallFrame) :=
      enterSyscall_changes kernel _
    rw [hexec] at hnew ⊢
    have hfields := processExecCurrent_fields answers (kernel.enterSyscall user.syscallFrame)
    refine (Rests.of_changes hfiled hentered hthread).trans
      (.of_slot ⟨hfields.2.1.ge, hfields.1.ge⟩ (processExecCurrent_other ?_ hnew))
    rw [(enterSyscall_fields kernel _).1]
    exact hthread

theorem Rests.afterRun {last : Kernel} {events : List Event} (hpositioned : kernel.Positioned)
    (hfiled : kernel.Filed) (hrun : run step kernel events = some last)
    (haside : Guarded step (fun kernel _ => thread ≠ kernel.current) kernel events)
    (hlast : thread ≠ last.current) : Rests kernel last thread := by
  induction events generalizing kernel with
  | nil =>
    cases hrun
    exact .refl _ thread
  | cons event events ih =>
    obtain ⟨next, hstep, hrest⟩ := run_cons_eq_some hrun
    have hnext : thread ≠ next.current := by
      cases events with
      | nil =>
        cases hrest
        exact hlast
      | cons => exact (haside.tail hstep).1
    have hrests := (step_handover hpositioned hstep).rests hfiled haside.1 hnext
    apply hrests.trans
    exact ih (step_positioned hpositioned hstep) (hfiled.afterStep hpositioned hstep) hrest
      (haside.tail hstep)

end Kernel

/-- A thread that is never current rests, however long the others run. -/
theorem waiting_thread_rests {root entry stack : Word} {events later : List Event}
    {kernel last : Kernel} {thread : ThreadId}
    (hrun : run Kernel.step (launched root entry stack) events = some kernel)
    (hlater : run Kernel.step kernel later = some last)
    (haside : Guarded Kernel.step (fun kernel _ => thread ≠ kernel.current) kernel later)
    (hlast : thread ≠ last.current) : Kernel.Rests kernel last thread := by
  have hguard : Guarded Kernel.step (fun _ _ => True) (launched root entry stack) events :=
    .of_forall fun _ _ _ => trivial
  have hfiled : kernel.Filed := Kernel.invariant_of_steps (.launched root entry stack) hguard
    hrun fun _ _ _ hpositioned hfiled _ hstep => hfiled.afterStep hpositioned hstep
  exact .afterRun ((Kernel.Positioned.launched root entry stack).afterRun hrun) hfiled hlater
    haside hlast

/-- While the first thread is asleep, the second asks for its pid and wakes it. -/
def wakingRun : List Event := [.call 39 [], .call 202 [0x6000, 1, 1, 0], .call 39 []]

theorem waiting_thread_rests_woken :
    ∃ kernel last, run Kernel.step sampleKernel futexWaitingRun = some kernel ∧
      run Kernel.step kernel wakingRun = some last ∧
      ((kernel.threads 2).state = .blocked ∧
        (kernel.threads 2).savedInterruptFrame.isSome = true) ∧
      (last.threads 2).state = .ready ∧ Kernel.Rests kernel last 2 := by
  have hfacts : (run Kernel.step sampleKernel futexWaitingRun).bind (fun kernel =>
      (run Kernel.step kernel wakingRun).map fun last =>
        (((kernel.threads 2).state, (kernel.threads 2).savedInterruptFrame.isSome),
          (last.threads 2).state, last.current,
          decide (Guarded Kernel.step (fun kernel _ => 2 ≠ kernel.current) kernel wakingRun))) =
      some ((.blocked, true), .ready, 3, true) := by
    decide +kernel
  obtain ⟨kernel, hrun, hfacts⟩ := Option.bind_eq_some_iff.1 hfacts
  obtain ⟨last, hlater, hvalues⟩ := Option.map_eq_some_iff.1 hfacts
  simp only [Prod.mk.injEq, decide_eq_true_eq] at hvalues
  obtain ⟨hparked, hready, hcurrent, haside⟩ := hvalues
  refine ⟨kernel, last, hrun, hlater, hparked, hready, ?_⟩
  apply waiting_thread_rests hrun hlater haside
  rw [hcurrent]
  decide

/-! ## The way back to user mode -/

/-- The code that reloads the frame of the chosen thread: the end of
`irq_timer_stub` after `scheduler_preempt`, and the restore routine for the kind
of frame after `scheduler_yield`. -/
def exitCode : Event → FrameKind → List Instr
  | .timer _ _, _ => irqTimerExit
  | _, .syscall => restoreSyscallFrameFromKernel
  | _, .interrupt => restoreUserFrameFromKernel

/-- The word of the frame from which a register is reloaded. -/
def exitSlot : Event → FrameKind → Reg → ℕ
  | .timer _ _, _ => interruptSlot
  | _, .syscall => syscallSlot
  | _, .interrupt => interruptSlot

theorem Cpu.run_restoreGprs_regs (cpu : Cpu) (r : Reg) :
    (cpu.run restoreGprs).regs r = cpu.stack (interruptSlot r) := by
  rw [restoreGprs, Cpu.run_map_pop]
  exact popAll_slot interruptOrder cpu.regs cpu.stack interruptOrder_nodup (mem_interruptOrder r)

theorem Cpu.run_restoreSyscallGprs_regs (cpu : Cpu) (r : Reg) :
    (cpu.run restoreSyscallGprs).regs r = cpu.stack (syscallSlot r) := by
  rw [restoreSyscallGprs, Cpu.run_map_pop]
  exact popAll_slot syscallOrder cpu.regs cpu.stack gprs_nodup (mem_syscallOrder r)

theorem Cpu.run_exitCode_regs (cpu : Cpu) (event : Event) (kind : FrameKind) (r : Reg) :
    (cpu.run (exitCode event kind)).regs r = cpu.stack (exitSlot event kind r) := by
  have htimer : (cpu.run irqTimerExit).regs r = cpu.stack (interruptSlot r) := by
    rw [irqTimerExit, Cpu.run_append, Cpu.run_restoreGprs_regs]
    simp only [Cpu.run_cons, Cpu.run_nil, Cpu.exec]
    split <;> rfl
  have hsyscall : (cpu.run restoreSyscallFrameFromKernel).regs r = cpu.stack (syscallSlot r) :=
    cpu.swapgs.run_restoreSyscallGprs_regs r
  have hinterrupt : (cpu.run restoreUserFrameFromKernel).regs r = cpu.stack (interruptSlot r) :=
    cpu.swapgs.run_restoreGprs_regs r
  cases event with
  | timer => exact htimer
  | _ =>
    cases kind with
    | syscall => exact hsyscall
    | interrupt => exact hinterrupt

end NPKernel
