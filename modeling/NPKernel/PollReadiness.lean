import NPKernel.PipeQueues

/-!
# Readiness of pipes and epoll objects

`vfs_poll_events` beside the calls whose outcome it foretells: `vfs_read` and `vfs_write` on
the two ends of a pipe, and `vfs_epoll_wait`.  It calls itself for every watch of an epoll
object, so it returns only where the watches come to an end.
-/

namespace NPKernel

namespace Descriptors

open GuardedRuns Relation

/-! ## The ends of pipes -/

namespace Files

def OneEnded (f : Files) : Prop :=
  ∀ i id, (f.table i).kind = .pipe id → (f.table i).writable = !(f.table i).readable

section ends

variable {f g : Files} {i : Fin 64}

theorem OneEnded.setDescription (h : f.OneEnded) {d : Description}
    (hd : ∀ id, d.kind = .pipe id → d.writable = !d.readable) :
    (f.setDescription i d).OneEnded := by
  intro k id hkind
  by_cases hki : k = i
  · subst hki
    simp only [Files.setDescription, Function.update_self] at hkind ⊢
    exact hd id hkind
  · simp only [Files.setDescription, Function.update_of_ne hki] at hkind ⊢
    exact h k id hkind

theorem OneEnded.kept : Kept OneEnded where
  add := by
    intro f i h
    unfold addReference
    dsimp only
    split <;> exact h.setDescription (h i)
  drop := by
    intro f i h
    unfold dropReference
    dsimp only
    split <;> exact h.setDescription (h i)
  watch := by
    intro f i j watch h
    unfold setWatch
    split
    · exact h.setDescription (by simp)
    · exact h
  release := by
    intro f i h
    have hcleared : (f.setDescription i .cleared).OneEnded :=
      h.setDescription (by simp [Description.cleared])
    unfold release
    split <;> exact hcleared

theorem OneEnded.allocateDescriptor (h : f.OneEnded) {readable writable : Bool} {kind : Kind}
    (hkind : ∀ id, kind = .pipe id → writable = !readable)
    (halloc : f.allocateDescriptor readable writable kind = some (i, g)) : g.OneEnded := by
  obtain ⟨-, rfl⟩ := allocateDescriptor_eq_some halloc
  exact h.setDescription hkind

theorem OneEnded.vfsPipeCreate (h : f.OneEnded) {reader writer : Fin 64}
    (hcreate : f.vfsPipeCreate = some (reader, writer, g)) : g.OneEnded := by
  unfold Files.vfsPipeCreate at hcreate
  dsimp only at hcreate
  split at hcreate
  · cases hcreate
  next hreader =>
  split at hcreate
  · cases hcreate
  next hwriter =>
  have hfirst := h.allocateDescriptor (fun _ _ => rfl) hreader
  have hsecond := hfirst.allocateDescriptor (fun _ _ => rfl) hwriter
  cases hcreate
  exact hsecond

end ends

end Files

theorem Pipes.vfsRead_table (s : Pipes) (handle count : ℕ) :
    (s.vfsRead handle count).2.files.table = s.files.table := by
  unfold Pipes.vfsRead
  grind [Files.setPipe]

theorem Pipes.vfsWrite_table (s : Pipes) (handle : ℕ) (bytes : List (BitVec 8)) :
    (s.vfsWrite handle bytes).2.files.table = s.files.table := by
  unfold Pipes.vfsWrite
  grind [Files.setPipe]

theorem Pipes.step_oneEnded {s next : Pipes} {call : PipeCall} (h : s.files.OneEnded)
    (hstep : s.step call = some next) : next.files.OneEnded := by
  have hfound : ∀ {readable writable : Bool} {kind : Kind}, (∀ id, kind ≠ .pipe id) →
      (s.setFiles (s.files.allocateDescriptor readable writable kind)).files.OneEnded := by
    intro readable writable kind hkind
    unfold Pipes.setFiles
    split
    · exact h
    next halloc => exact h.allocateDescriptor (fun id hid => absurd hid (hkind id)) halloc
  cases call with
  | openFlags opened =>
    cases hstep
    cases opened <;> exact hfound (by simp)
  | shmCreate size =>
    cases hstep
    exact hfound (by simp)
  | epollCreate =>
    cases hstep
    exact hfound (by simp)
  | epollCtl epfd operation handle events data =>
    obtain ⟨closed, hclosed, hkept⟩ :=
      Files.OneEnded.kept.vfsEpollCtl h epfd operation handle events data
    rw [Pipes.step, hclosed] at hstep
    cases hstep
    exact hkept
  | pipeCreate kcalloc =>
    cases hstep
    unfold Pipes.vfsPipeCreate
    split
    · exact h
    · split
      · exact h
      next hcreate => exact h.vfsPipeCreate hcreate
  | retain handle =>
    cases hstep
    exact Files.OneEnded.kept.vfsRetain h handle
  | close handle =>
    obtain ⟨closed, hclosed, hkept⟩ := Files.OneEnded.kept.vfsClose h handle
    rw [Pipes.step, hclosed] at hstep
    cases hstep
    exact hkept
  | read handle count =>
    cases hstep
    unfold Files.OneEnded
    rw [s.vfsRead_table]
    exact h
  | write handle bytes =>
    cases hstep
    unfold Files.OneEnded
    rw [s.vfsWrite_table]
    exact h

/-! ## Watches that come to an end -/

namespace Files

variable {f : Files} {i : Fin 64}

def Watches (f : Files) (i k : Fin 64) : Prop :=
  ∃ j watch, f.watchAt i j = some watch ∧ descriptorSlot watch.fd = some k

/-- Watches lead from the description to none that is watched, also indirectly, by itself. -/
def LeadsToNoCycle (f : Files) (i : Fin 64) : Prop :=
  ∀ k, ReflTransGen f.Watches i k → ¬TransGen f.Watches k k

theorem LeadsToNoCycle.acc (h : f.LeadsToNoCycle i) : Acc (fun next k => f.Watches k next) i := by
  -- There are finitely many descriptions, so a transitive relation without cycles is enough.
  let below : Fin 64 → Fin 64 → Prop :=
    fun next k => TransGen f.Watches k next ∧ ReflTransGen f.Watches i k
  have htrans : IsTrans (Fin 64) below := by
    constructor
    intro a b c hab hbc
    exact ⟨hbc.1.trans hab.1, hbc.2⟩
  have hirrefl : Std.Irrefl below := by
    constructor
    intro k hk
    exact h k hk.2 hk.1
  have hwf := Finite.wellFounded_of_trans_of_irrefl below
  have hacc : ∀ k, ReflTransGen f.Watches i k → Acc (fun next k => f.Watches k next) k := by
    intro k
    induction k using hwf.induction with
    | h k ih =>
      intro hk
      constructor
      intro next hnext
      exact ih next ⟨TransGen.single hnext, hk⟩ (hk.tail hnext)
  exact hacc i ReflTransGen.refl

section loops

variable {poll : ℕ → BitVec 32 → Option (BitVec 32)}
  (hpoll : ∀ j watch, f.watchAt i j = some watch → (poll watch.fd watch.events).isSome)

include hpoll

theorem waitWatches_isSome (js : List (Fin 32)) (capacity : ℕ) :
    (waitWatches poll f i js capacity).isSome := by
  induction js generalizing capacity with
  | nil => rfl
  | cons j rest ih =>
    cases capacity with
    | zero => rfl
    | succ capacity =>
      rw [waitWatches]
      cases hwatch : f.watchAt i j with
      | none => exact ih _
      | some watch =>
        obtain ⟨ready, hready⟩ := Option.isSome_iff_exists.1 (hpoll j watch hwatch)
        dsimp only
        rw [hready]
        dsimp only
        split
        · exact ih _
        · rw [Option.isSome_map]
          exact ih _

/-- Both loops stop at the first watch that is ready, or go on to the last one. -/
theorem pollWatches_waitWatches (js : List (Fin 32)) (capacity : ℕ) :
    ∃ ready events, pollWatches poll f i js = some ready ∧
      waitWatches poll f i js (capacity + 1) = some events ∧ (ready = true ↔ events ≠ []) := by
  induction js with
  | nil => exact ⟨false, [], rfl, rfl, by simp⟩
  | cons j rest ih =>
    rw [pollWatches, waitWatches]
    cases hwatch : f.watchAt i j with
    | none => exact ih
    | some watch =>
      obtain ⟨ready, hready⟩ := Option.isSome_iff_exists.1 (hpoll j watch hwatch)
      dsimp only
      rw [hready]
      dsimp only
      by_cases hzero : ready = 0
      · rw [if_neg (not_not.2 hzero), if_pos hzero]
        exact ih
      · rw [if_pos hzero, if_neg hzero]
        obtain ⟨events, hevents⟩ :=
          Option.isSome_iff_exists.1 (waitWatches_isSome hpoll rest capacity)
        rw [hevents]
        exact ⟨true, _, rfl, rfl, by simp⟩

end loops

variable (keyboard : Bool)

theorem watches_poll {depth : ℕ}
    (h : ∀ k, f.Watches i k → ∀ handle requested, descriptorSlot handle = some k →
      (vfsPollEvents keyboard f (depth + 1) handle requested).isSome) :
    ∀ j watch, f.watchAt i j = some watch →
      (vfsPollEvents keyboard f (depth + 1) watch.fd watch.events).isSome := by
  intro j watch hwatch
  cases hslot : descriptorSlot watch.fd with
  | none =>
    rw [vfsPollEvents, hslot]
    split
    · rfl
    · split <;> rfl
  | some k => exact h k ⟨j, watch, hwatch, hslot⟩ _ _ hslot

theorem exists_depth (hacc : Acc (fun next k => f.Watches k next) i) :
    ∃ depth, ∀ more, ∀ j watch, f.watchAt i j = some watch →
      (vfsPollEvents keyboard f (depth + more + 1) watch.fd watch.events).isSome := by
  induction hacc with
  | intro i _ ih =>
    choose! depths hdepths using ih
    refine ⟨Finset.univ.sup depths + 1, ?_⟩
    intro more
    apply watches_poll
    intro k hk handle requested hslot
    obtain ⟨rest, hrest⟩ : ∃ rest, Finset.univ.sup depths + 1 + more = depths k + rest + 1 := by
      have hle : depths k ≤ Finset.univ.sup depths := Finset.le_sup (Finset.mem_univ k)
      exact ⟨Finset.univ.sup depths + more - depths k, by omega⟩
    obtain ⟨ready, -, hready, -, -⟩ :=
      pollWatches_waitWatches (hdepths k hk rest) (List.finRange 32) 0
    rw [hrest, vfsPollEvents, hslot]
    dsimp only
    rw [hready]
    split
    · rfl
    split
    · rfl
    · split
      · rfl
      · cases (f.table k).kind <;> rfl

theorem vfsPollEvents_used (hused : (f.table i).used = true) (depth : ℕ) (requested : BitVec 32) :
    vfsPollEvents keyboard f (depth + 1) (descriptorNumber i) requested =
      let mask := requested ||| NPK_VFS_POLLERR ||| NPK_VFS_POLLHUP
      match (f.table i).kind with
      | .pipe id => some (pipeReady (f.table i) (f.pipes id) &&& mask)
      | .epoll _ =>
        (pollWatches (vfsPollEvents keyboard f depth) f i (List.finRange 32)).map
          fun ready => (if ready then NPK_VFS_POLLIN else 0) &&& mask
      | .shm _ => some (0 &&& mask)
      | _ =>
        some (((if (f.table i).readable then NPK_VFS_POLLIN else 0) |||
          (if (f.table i).writable then NPK_VFS_POLLOUT else 0)) &&& mask) := by
  have hnumber : 3 ≤ descriptorNumber i := by
    unfold descriptorNumber OPEN_DESCRIPTOR_BASE
    omega
  rw [vfsPollEvents, descriptorSlot_number, if_neg (by simp; omega), if_neg (by omega)]
  dsimp only
  rw [hused]
  rfl

end Files

/-! ## Readiness and outcome -/

section pipes

variable {d : Description} {pipe : Pipe}

theorem pipeReady_readEnd (hreadable : d.readable = true) (hwritable : d.writable = false) :
    Files.pipeReady d pipe = if pipe.count = 0 then if pipe.writers = 0 then NPK_VFS_POLLHUP else 0
      else NPK_VFS_POLLIN := by
  unfold Files.pipeReady
  by_cases hempty : pipe.count = 0 <;> by_cases hwriters : pipe.writers = 0 <;>
    simp [hreadable, hwritable, hempty, hwriters]

theorem pipeReady_writeEnd (hreadable : d.readable = false) (hwritable : d.writable = true) :
    Files.pipeReady d pipe = if pipe.readers = 0 then NPK_VFS_POLLERR ||| NPK_VFS_POLLHUP
      else if PIPE_CAPACITY ≤ pipe.count then 0 else NPK_VFS_POLLOUT := by
  unfold Files.pipeReady
  by_cases hreaders : pipe.readers = 0 <;> by_cases hfull : PIPE_CAPACITY ≤ pipe.count <;>
    simp [hreadable, hwritable, hreaders, hfull]

end pipes

/-- What polling the read end of a pipe for input foretells of a read. -/
structure InputAgrees (ready : BitVec 32) (read : Transfer) : Prop where
  nothing : ready = 0 ↔ read = .returned (-11)
  input : ready &&& NPK_VFS_POLLIN ≠ 0 ↔ ∃ id bytes, bytes ≠ [] ∧ read = .received id bytes
  hangUp : ready &&& NPK_VFS_POLLHUP ≠ 0 ↔ read = .returned 0

/-- What polling the write end of a pipe for output foretells of a write. -/
structure OutputAgrees (ready : BitVec 32) (write : Transfer) : Prop where
  nothing : ready = 0 ↔ write = .returned (-11)
  error : ready &&& NPK_VFS_POLLERR ≠ 0 ↔ write = .returned (-32)

section outcomes

variable {history : List Transfer} {s : Pipes} {i : Fin 64} {id : ℕ} (keyboard : Bool)

theorem Queues.inputAgrees (h : Queues history s) (hends : s.files.OneEnded)
    (hused : (s.files.table i).used = true) (hkind : (s.files.table i).kind = .pipe id)
    (hreadable : (s.files.table i).readable = true) {count : ℕ} (hcount : 0 < count) :
    ∃ ready, (∀ depth, s.files.vfsPollEvents keyboard (depth + 1) (descriptorNumber i)
        NPK_VFS_POLLIN = some ready) ∧
      InputAgrees ready (s.vfsRead (descriptorNumber i) count).1 := by
  have hwritable : (s.files.table i).writable = false := by
    rw [hends i id hkind, hreadable]
    rfl
  refine ⟨_, fun depth => by rw [Files.vfsPollEvents_used keyboard hused, hkind], ?_⟩
  rw [h.vfsRead hused hreadable hkind hcount]
  rw [pipeReady_readEnd hreadable hwritable]
  by_cases hempty : (s.files.pipes id).count = 0
  · rw [if_pos hempty, if_pos hempty]
    by_cases hwriters : (s.files.pipes id).writers = 0
    · rw [if_pos hwriters, if_neg (not_not.2 hwriters)]
      exact ⟨iff_of_false (by decide) (by simp), iff_of_false (by decide) (by simp),
        iff_of_true (by decide) rfl⟩
    · rw [if_neg hwriters, if_pos hwriters]
      exact ⟨iff_of_true (by decide) rfl, iff_of_false (by decide) (by simp),
        iff_of_false (by decide) (by simp)⟩
  · have hbytes : ((s.rings id).contents (s.files.pipes id).count).take count ≠ [] := by
      rw [← List.length_pos_iff, List.length_take, Ring.contents, RingBuffers.length_contents]
      omega
    rw [if_neg hempty, if_neg hempty]
    exact ⟨iff_of_false (by decide) (by simp), iff_of_true (by decide) ⟨id, _, hbytes, rfl⟩,
      iff_of_false (by decide) (by simp)⟩

theorem Pipes.outputAgrees (s : Pipes) (hends : s.files.OneEnded)
    (hused : (s.files.table i).used = true) (hkind : (s.files.table i).kind = .pipe id)
    (hwritable : (s.files.table i).writable = true) {bytes : List (BitVec 8)}
    (hbytes : bytes ≠ []) :
    ∃ ready, (∀ depth, s.files.vfsPollEvents keyboard (depth + 1) (descriptorNumber i)
        NPK_VFS_POLLOUT = some ready) ∧
      OutputAgrees ready (s.vfsWrite (descriptorNumber i) bytes).1 := by
  have hreadable : (s.files.table i).readable = false := by
    have hend := hends i id hkind
    rw [hwritable] at hend
    simpa using hend.symm
  refine ⟨_, fun depth => by rw [Files.vfsPollEvents_used keyboard hused, hkind], ?_⟩
  rw [s.vfsWrite_pipe hused hwritable hkind hbytes]
  rw [pipeReady_writeEnd hreadable hwritable]
  by_cases hreaders : (s.files.pipes id).readers = 0
  · rw [if_pos hreaders, if_pos hreaders]
    exact ⟨iff_of_false (by decide) (by simp), iff_of_true (by decide) rfl⟩
  rw [if_neg hreaders, if_neg hreaders]
  by_cases hfull : PIPE_CAPACITY ≤ (s.files.pipes id).count
  · rw [if_pos hfull, if_pos hfull]
    exact ⟨iff_of_true (by decide) rfl, iff_of_false (by decide) (by simp)⟩
  · rw [if_neg hfull, if_neg hfull]
    exact ⟨iff_of_false (by decide) (by simp), iff_of_false (by decide) (by simp)⟩

theorem Files.LeadsToNoCycle.epollAgrees {f : Files} (h : f.LeadsToNoCycle i)
    (hused : (f.table i).used = true) (hkind : isEpoll (f.table i).kind = true) {capacity : ℕ}
    (hcapacity : 0 < capacity) :
    ∃ depth ready events,
      f.vfsPollEvents keyboard (depth + 1) (descriptorNumber i) NPK_VFS_POLLIN = some ready ∧
      f.vfsEpollWait keyboard depth (descriptorNumber i) capacity = some (.ok events) ∧
      (ready &&& NPK_VFS_POLLIN ≠ 0 ↔ events ≠ []) := by
  obtain ⟨depth, hwatches⟩ := exists_depth keyboard h.acc
  obtain ⟨capacity, rfl⟩ : ∃ less, capacity = less + 1 := ⟨capacity - 1, by omega⟩
  obtain ⟨ready, events, hready, hevents, hagree⟩ :=
    pollWatches_waitWatches (hwatches 0) (List.finRange 32) capacity
  cases hwatched : (f.table i).kind with
  | epoll watches =>
    refine ⟨depth + 1, (if ready then NPK_VFS_POLLIN else 0) &&&
      (NPK_VFS_POLLIN ||| NPK_VFS_POLLERR ||| NPK_VFS_POLLHUP), events, ?_, ?_, ?_⟩
    · rw [vfsPollEvents_used keyboard hused, hwatched]
      dsimp only
      rw [hready]
      rfl
    · rw [vfsEpollWait, descriptorSlot_number]
      dsimp only
      rw [hused, hkind, if_neg (by decide), hevents]
      rfl
    · rw [← hagree]
      cases ready <;> decide
  | _ =>
    rw [hwatched] at hkind
    cases hkind

end outcomes

/-- Polling agrees with the calls that follow. -/
theorem poll_agrees_with_io (keyboard : Bool) (calls : List PipeCall) :
    ∃ s, run Pipes.step Pipes.boot calls = some s ∧ ∀ i, (s.files.table i).used = true →
      (∀ id, (s.files.table i).kind = .pipe id →
        ((s.files.table i).readable = true ∧ (s.files.table i).writable = false ∧
          ∀ count, 0 < count → ∃ ready,
            (∀ depth, s.files.vfsPollEvents keyboard (depth + 1) (descriptorNumber i)
              NPK_VFS_POLLIN = some ready) ∧
            InputAgrees ready (s.vfsRead (descriptorNumber i) count).1) ∨
        ((s.files.table i).readable = false ∧ (s.files.table i).writable = true ∧
          ∀ bytes, bytes ≠ [] → ∃ ready,
            (∀ depth, s.files.vfsPollEvents keyboard (depth + 1) (descriptorNumber i)
              NPK_VFS_POLLOUT = some ready) ∧
            OutputAgrees ready (s.vfsWrite (descriptorNumber i) bytes).1)) ∧
      (Files.isEpoll (s.files.table i).kind = true → s.files.LeadsToNoCycle i →
        ∀ capacity, 0 < capacity → ∃ depth ready events,
          s.files.vfsPollEvents keyboard (depth + 1) (descriptorNumber i) NPK_VFS_POLLIN =
            some ready ∧
          s.files.vfsEpollWait keyboard depth (descriptorNumber i) capacity = some (.ok events) ∧
          (ready &&& NPK_VFS_POLLIN ≠ 0 ↔ events ≠ [])) := by
  obtain ⟨s, hrun, hqueues⟩ := queues_run calls
  have hpreserve : ∀ s call next, s.files.OneEnded → True → Pipes.step s call = some next →
      next.files.OneEnded := fun s call next h _ hstep => Pipes.step_oneEnded h hstep
  have hends : s.files.OneEnded := by
    apply invariant_run hpreserve _ (Guarded.of_forall fun _ _ _ => trivial) hrun
    intro i id hkind
    cases hkind
  refine ⟨s, hrun, fun i hused => ⟨fun id hkind => ?_, fun hepoll hnone capacity hcapacity => ?_⟩⟩
  · have hend := hends i id hkind
    cases hreadable : (s.files.table i).readable with
    | true =>
      rw [hreadable] at hend
      exact Or.inl ⟨rfl, hend, fun count hcount =>
        hqueues.inputAgrees keyboard hends hused hkind hreadable hcount⟩
    | false =>
      rw [hreadable] at hend
      exact Or.inr ⟨rfl, hend, fun bytes hbytes =>
        s.outputAgrees keyboard hends hused hkind hend hbytes⟩
  · exact hnone.epollAgrees keyboard hused hepoll hcapacity

/-- An epoll object that watches the terminal and a second one, which watches a third one and
is watched by it. -/
def watchedCycle : List PipeCall :=
  [.epollCreate, .epollCreate, .epollCreate,
    .epollCtl (descriptorNumber 0) 1 1 NPK_VFS_POLLOUT 0,
    .epollCtl (descriptorNumber 0) 1 (descriptorNumber 1) NPK_VFS_POLLIN 0,
    .epollCtl (descriptorNumber 1) 1 (descriptorNumber 2) NPK_VFS_POLLIN 0,
    .epollCtl (descriptorNumber 2) 1 (descriptorNumber 1) NPK_VFS_POLLIN 0]

/-- Where the first watch leads on and on, polling does not return. -/
theorem Files.vfsPollEvents_cycle {f : Files} {P : Fin 64 → Prop} {keyboard : Bool}
    (h : ∀ i, P i → (f.table i).used = true ∧
      ∃ k events data, P k ∧ f.watchAt i 0 = some ⟨descriptorNumber k, events, data⟩)
    (depth : ℕ) {i : Fin 64} (hi : P i) (requested : BitVec 32) :
    f.vfsPollEvents keyboard depth (descriptorNumber i) requested = none := by
  induction depth generalizing i requested with
  | zero => rfl
  | succ depth ih =>
    obtain ⟨hused, k, events, data, hk, hwatch⟩ := h i hi
    have hloop : pollWatches (vfsPollEvents keyboard f depth) f i (List.finRange 32) = none := by
      rw [List.finRange_succ, pollWatches, hwatch]
      dsimp only
      rw [ih hk]
    rw [vfsPollEvents_used keyboard hused, hloop]
    unfold watchAt at hwatch
    cases hkind : (f.table i).kind with
    | epoll watches => rfl
    | _ =>
      rw [hkind] at hwatch
      cases hwatch

theorem epoll_wait_never_returns :
    ∃ s, run Pipes.step Pipes.boot watchedCycle = some s ∧ (s.files.table 0).used = true ∧
      Files.isEpoll (s.files.table 0).kind = true ∧ ¬TransGen s.files.Watches 0 0 ∧
      ¬((∃ depth ready, s.files.vfsPollEvents false depth (descriptorNumber 0) NPK_VFS_POLLIN =
            some ready ∧ ready &&& NPK_VFS_POLLIN ≠ 0) ↔
        ∃ depth events, s.files.vfsEpollWait false depth (descriptorNumber 0) 2 =
          some (.ok events) ∧ events ≠ []) := by
  obtain ⟨s, hrun, hused, hkind, hapart, hready, hfirst, hsecond, hcycle⟩ :
      ∃ s, run Pipes.step Pipes.boot watchedCycle = some s ∧ (s.files.table 0).used = true ∧
        Files.isEpoll (s.files.table 0).kind = true ∧
        (∀ i j, (s.files.watchAt i j).all fun watch => descriptorSlot watch.fd ≠ some 0) ∧
        s.files.vfsPollEvents false 2 (descriptorNumber 0) NPK_VFS_POLLIN = some NPK_VFS_POLLIN ∧
        s.files.watchAt 0 0 = some ⟨1, NPK_VFS_POLLOUT, 0⟩ ∧
        s.files.watchAt 0 1 = some ⟨descriptorNumber 1, NPK_VFS_POLLIN, 0⟩ ∧
        ∀ i, i = 1 ∨ i = 2 → (s.files.table i).used = true ∧ ∃ k events data, (k = 1 ∨ k = 2) ∧
          s.files.watchAt i 0 = some ⟨descriptorNumber k, events, data⟩ := by
    refine ⟨_, rfl, rfl, rfl, by decide +kernel, by decide +kernel, rfl, rfl, ?_⟩
    rintro i (rfl | rfl)
    · exact ⟨rfl, 2, NPK_VFS_POLLIN, 0, Or.inr rfl, rfl⟩
    · exact ⟨rfl, 1, NPK_VFS_POLLIN, 0, Or.inl rfl, rfl⟩
  refine ⟨s, hrun, hused, hkind, ?_, ?_⟩
  · intro hback
    obtain ⟨i, -, j, watch, hwatch, hslot⟩ := TransGen.tail'_iff.1 hback
    have hother := hapart i j
    rw [hwatch] at hother
    exact of_decide_eq_true hother hslot
  · intro hagree
    obtain ⟨depth, events, hwait, -⟩ := hagree.1 ⟨2, NPK_VFS_POLLIN, hready, by decide⟩
    have hloop : Files.waitWatches (s.files.vfsPollEvents false depth) s.files 0
        (List.finRange 32) 2 = none := by
      have hrange : List.finRange 32 = 0 :: 1 :: (List.finRange 32).drop 2 := by decide
      rw [hrange, Files.waitWatches, hfirst]
      dsimp only
      cases hterminal : s.files.vfsPollEvents false depth 1 NPK_VFS_POLLOUT with
      | none => rfl
      | some ready =>
        have hnone : ∀ rest capacity, Files.waitWatches (s.files.vfsPollEvents false depth)
            s.files 0 (1 :: rest) (capacity + 1) = none := by
          intro rest capacity
          rw [Files.waitWatches, hsecond]
          dsimp only
          rw [Files.vfsPollEvents_cycle hcycle depth (Or.inl rfl)]
        dsimp only
        rw [hnone, hnone]
        split <;> rfl
    rw [Files.vfsEpollWait, Files.descriptorSlot_number] at hwait
    dsimp only at hwait
    rw [hused, hkind, if_neg (by decide), hloop] at hwait
    cases hwait

end Descriptors

end NPKernel
