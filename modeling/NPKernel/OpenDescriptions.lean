import NPKernel.PersistentFiles

/-!
# Open descriptions

The open half of the table in `src/fs/vfs.c`: the descriptions that descriptors,
mappings, epoll watches and pending transfers refer to by their handle.  A handle
below 3 is the terminal and is not counted.  Pipes are objects of the kernel heap;
they are numbered in the order in which they are made, and each has a count of how
often it was freed.  What is read and written through a description is left out,
except for the fill of pipes, on which readiness depends.
-/

namespace NPKernel

namespace Descriptors

def NPK_VFS_POLLIN : BitVec 32 := 1
def NPK_VFS_POLLOUT : BitVec 32 := 4
def NPK_VFS_POLLERR : BitVec 32 := 8
def NPK_VFS_POLLHUP : BitVec 32 := 16

def PIPE_CAPACITY : ℕ := 4096

structure Watch where
  fd : ℕ
  events : BitVec 32
  data : Word

/-- What a description is of. -/
inductive Kind where
  | none
  | file
  | pseudo
  | directory
  | persistent
  | pipe (id : ℕ)
  | epoll (watches : Fin 32 → Option Watch)
  | shm (size : ℕ)

structure Description where
  used : Bool
  refs : ℕ
  readable : Bool
  writable : Bool
  kind : Kind

def Description.cleared : Description where
  used := false
  refs := 0
  readable := false
  writable := false
  kind := .none

structure Pipe where
  count : ℕ
  readers : ℕ
  writers : ℕ

structure Files where
  table : Fin 64 → Description
  pipes : ℕ → Pipe
  created : ℕ
  frees : ℕ → ℕ

namespace Files

def empty : Files where
  table := fun _ => .cleared
  pipes := fun _ => ⟨0, 0, 0⟩
  created := 0
  frees := fun _ => 0

def setDescription (f : Files) (i : Fin 64) (d : Description) : Files :=
  { f with table := Function.update f.table i d }

def setPipe (f : Files) (id : ℕ) (pipe : Pipe) : Files :=
  { f with pipes := Function.update f.pipes id pipe }

/-! ## New descriptions -/

def allocateDescriptor (f : Files) (readable writable : Bool) (kind : Kind) :
    Option (Fin 64 × Files) :=
  match (List.finRange 64).find? fun i => !(f.table i).used with
  | none => none
  | some i =>
    some (i, f.setDescription i
      { used := true, refs := 1, readable := readable, writable := writable, kind := kind })

/-- What `vfs_open_flags` can find behind a path. -/
inductive Opened where
  | file
  | pseudo
  | directory
  | persistent (readable writable : Bool)

def vfsOpenFlags (f : Files) : Opened → Option (Fin 64 × Files)
  | .file => f.allocateDescriptor true false .file
  | .pseudo => f.allocateDescriptor true false .pseudo
  | .directory => f.allocateDescriptor true false .directory
  | .persistent readable writable => f.allocateDescriptor readable writable .persistent

def vfsShmCreate (f : Files) (size : ℕ) : Option (Fin 64 × Files) :=
  f.allocateDescriptor true true (.shm size)

def vfsEpollCreate (f : Files) : Option (Fin 64 × Files) :=
  f.allocateDescriptor false false (.epoll fun _ => none)

def vfsPipeCreate (f : Files) : Option (Fin 64 × Fin 64 × Files) :=
  let id := f.created
  match f.allocateDescriptor true false (.pipe id) with
  | none => none
  | some (reader, g) =>
    match g.allocateDescriptor false true (.pipe id) with
    | none => none
    | some (writer, g) =>
      some (reader, writer, { g.setPipe id ⟨0, 1, 1⟩ with created := id + 1 })

/-! ## References -/

def addReference (f : Files) (i : Fin 64) : Files :=
  let d := f.table i
  let f := f.setDescription i { d with refs := d.refs + 1 }
  match d.kind with
  | .pipe id =>
    let pipe := f.pipes id
    f.setPipe id
      { pipe with
        readers := if d.readable then pipe.readers + 1 else pipe.readers
        writers := if d.writable then pipe.writers + 1 else pipe.writers }
  | _ => f

def vfsRetain (f : Files) (handle : ℕ) : ℤ × Files :=
  if handle ≤ 2 then (0, f)
  else
    match descriptorSlot handle with
    | none => (-9, f)
    | some i =>
      if !(f.table i).used || (f.table i).refs = 2 ^ 32 - 1 then (-9, f)
      else (0, f.addReference i)

def watchAt (f : Files) (i : Fin 64) (j : Fin 32) : Option Watch :=
  match (f.table i).kind with
  | .epoll watches => watches j
  | _ => none

def setWatch (f : Files) (i : Fin 64) (j : Fin 32) (watch : Option Watch) : Files :=
  match (f.table i).kind with
  | .epoll watches =>
    f.setDescription i
      { f.table i with kind := .epoll (Function.update watches j watch) }
  | _ => f

def dropReference (f : Files) (i : Fin 64) : Files :=
  let d := f.table i
  let f := f.setDescription i { d with refs := d.refs - 1 }
  match d.kind with
  | .pipe id =>
    let pipe := f.pipes id
    f.setPipe id
      { pipe with
        readers := if d.readable && pipe.readers ≠ 0 then pipe.readers - 1 else pipe.readers
        writers := if d.writable && pipe.writers ≠ 0 then pipe.writers - 1 else pipe.writers }
  | _ => f

def freePipe (f : Files) (id : ℕ) : Files :=
  { f with
    frees :=
      if (f.pipes id).readers = 0 ∧ (f.pipes id).writers = 0 then
        Function.update f.frees id (f.frees id + 1)
      else f.frees }

def release (f : Files) (i : Fin 64) : Files :=
  match (f.table i).kind with
  | .pipe id => (f.setDescription i .cleared).freePipe id
  | _ => f.setDescription i .cleared

structure Closed where
  result : ℤ
  objects : List (Fin 64)
  files : Files

def closeWatches (close : Files → ℕ → Option Closed) (i : Fin 64) :
    List (Fin 32) → Files → Option (List (Fin 64) × Files)
  | [], f => some ([], f)
  | j :: rest, f =>
    match f.watchAt i j with
    | none => closeWatches close i rest f
    | some watch =>
      match close f watch.fd with
      | none => none
      | some closed =>
        match closeWatches close i rest (closed.files.setWatch i j none) with
        | none => none
        | some (objects, f) => some (closed.objects ++ objects, f)

def shmObject (i : Fin 64) : Kind → List (Fin 64)
  | .shm _ => [i]
  | _ => []

def vfsClose : ℕ → Files → ℕ → Option Closed
  | 0, _, _ => none
  | depth + 1, f, handle =>
    if handle ≤ 2 then some ⟨0, [], f⟩
    else
      match descriptorSlot handle with
      | none => some ⟨-9, [], f⟩
      | some i =>
        if !(f.table i).used || (f.table i).refs = 0 then some ⟨-9, [], f⟩
        else
          let f := f.dropReference i
          if (f.table i).refs ≠ 0 then some ⟨0, [], f⟩
          else
            match closeWatches (vfsClose depth) i (List.finRange 32) f with
            | none => none
            | some (objects, f) =>
              some ⟨0, objects ++ shmObject i (f.table i).kind, f.release i⟩

/-! ## Readiness -/

/-- The loop of `vfs_poll_events` over the watches of an epoll object: whether one of
them is ready. -/
def pollWatches (poll : ℕ → BitVec 32 → Option (BitVec 32)) (f : Files) (i : Fin 64) :
    List (Fin 32) → Option Bool
  | [] => some false
  | j :: rest =>
    match f.watchAt i j with
    | none => pollWatches poll f i rest
    | some watch =>
      match poll watch.fd watch.events with
      | none => none
      | some ready => if ready ≠ 0 then some true else pollWatches poll f i rest

def pipeReady (d : Description) (pipe : Pipe) : BitVec 32 :=
  (if d.readable && (pipe.count ≠ 0 || pipe.writers = 0) then
    if pipe.count ≠ 0 then NPK_VFS_POLLIN else NPK_VFS_POLLHUP
  else 0) |||
  (if d.writable && pipe.readers = 0 then NPK_VFS_POLLERR ||| NPK_VFS_POLLHUP
  else if d.writable && pipe.count < PIPE_CAPACITY then NPK_VFS_POLLOUT
  else 0)

def vfsPollEvents (keyboard : Bool) (f : Files) : ℕ → ℕ → BitVec 32 → Option (BitVec 32)
  | 0, _, _ => none
  | depth + 1, handle, requested =>
    if handle = 1 || handle = 2 then some (requested &&& NPK_VFS_POLLOUT)
    else if handle = 0 then some (if keyboard then requested &&& NPK_VFS_POLLIN else 0)
    else
      match descriptorSlot handle with
      | none => some NPK_VFS_POLLERR
      | some i =>
        let d := f.table i
        if !d.used then some NPK_VFS_POLLERR
        else
          let mask := requested ||| NPK_VFS_POLLERR ||| NPK_VFS_POLLHUP
          match d.kind with
          | .pipe id => some (pipeReady d (f.pipes id) &&& mask)
          | .epoll _ =>
            (pollWatches (vfsPollEvents keyboard f depth) f i (List.finRange 32)).map
              fun ready => (if ready then NPK_VFS_POLLIN else 0) &&& mask
          | .shm _ => some (0 &&& mask)
          | _ =>
            some (((if d.readable then NPK_VFS_POLLIN else 0) |||
              (if d.writable then NPK_VFS_POLLOUT else 0)) &&& mask)

/-- The loop of `vfs_epoll_wait`; each event is the data of a watch and what is
ready. -/
def waitWatches (poll : ℕ → BitVec 32 → Option (BitVec 32)) (f : Files) (i : Fin 64) :
    List (Fin 32) → ℕ → Option (List (Word × BitVec 32))
  | [], _ => some []
  | _, 0 => some []
  | j :: rest, capacity + 1 =>
    match f.watchAt i j with
    | none => waitWatches poll f i rest (capacity + 1)
    | some watch =>
      match poll watch.fd watch.events with
      | none => none
      | some ready =>
        if ready = 0 then waitWatches poll f i rest (capacity + 1)
        else (waitWatches poll f i rest capacity).map ((watch.data, ready) :: ·)

def isEpoll : Kind → Bool
  | .epoll _ => true
  | _ => false

def vfsEpollWait (keyboard : Bool) (f : Files) (depth epfd capacity : ℕ) :
    Option (Except ℤ (List (Word × BitVec 32))) :=
  match descriptorSlot epfd with
  | none => some (.error (-9))
  | some i =>
    if !(f.table i).used || !isEpoll (f.table i).kind then some (.error (-9))
    else
      (waitWatches (vfsPollEvents keyboard f depth) f i (List.finRange 32) capacity).map .ok

/-! ## Watches -/

def findWatch (f : Files) (i : Fin 64) (handle : ℕ) : Option (Fin 32) :=
  (List.finRange 32).reverse.find? fun j =>
    match f.watchAt i j with
    | some watch => watch.fd == handle
    | none => false

def freeWatch (f : Files) (i : Fin 64) : Option (Fin 32) :=
  (List.finRange 32).find? fun j => (f.watchAt i j).isNone

def controlWatches (depth : ℕ) (f : Files) (i : Fin 64) (operation handle : ℕ)
    (events : BitVec 32) (data : Word) : Option Closed :=
  let found := f.findWatch i handle
  if operation = 1 then
    match found, f.freeWatch i with
    | some _, _ => some ⟨-17, [], f⟩
    | none, none => some ⟨-28, [], f⟩
    | none, some j =>
      match f.vfsRetain handle with
      | (result, g) =>
        if result ≠ 0 then some ⟨-28, [], g⟩
        else some ⟨0, [], g.setWatch i j (some ⟨handle, events, data⟩)⟩
  else if operation = 2 then
    match found with
    | none => some ⟨-2, [], f⟩
    | some j =>
      match vfsClose depth f handle with
      | none => none
      | some closed => some ⟨0, closed.objects, closed.files.setWatch i j none⟩
  else if operation = 3 then
    match found with
    | none => some ⟨-2, [], f⟩
    | some j => some ⟨0, [], f.setWatch i j (some ⟨handle, events, data⟩)⟩
  else some ⟨-22, [], f⟩

def vfsEpollCtl (depth : ℕ) (f : Files) (epfd operation handle : ℕ) (events : BitVec 32)
    (data : Word) : Option Closed :=
  match descriptorSlot epfd with
  | none => some ⟨-9, [], f⟩
  | some i =>
    if !(f.table i).used || !isEpoll (f.table i).kind ||
        OPEN_DESCRIPTOR_BASE + 64 ≤ handle || handle = epfd then some ⟨-9, [], f⟩
    else
      match descriptorSlot handle with
      | some k =>
        if !(f.table k).used then some ⟨-9, [], f⟩
        else controlWatches depth f i operation handle events data
      | none => controlWatches depth f i operation handle events data

/-! ## Descriptions that lose a reference -/

variable {f g : Files} {i : Fin 64}

theorem descriptorSlot_number (i : Fin 64) : descriptorSlot (descriptorNumber i) = some i := by
  have hi := i.isLt
  simp [descriptorSlot, descriptorNumber]

theorem dropReference_table (k : Fin 64) :
    (f.dropReference i).table k =
      if k = i then { f.table i with refs := (f.table i).refs - 1 } else f.table k := by
  unfold dropReference
  by_cases hk : k = i <;> cases hkind : (f.table i).kind <;>
    simp [setDescription, setPipe, hk, hkind]

@[simp]
theorem dropReference_created : (f.dropReference i).created = f.created := by
  unfold dropReference
  cases h : (f.table i).kind <;> simp [h, setDescription, setPipe]

theorem release_table (k : Fin 64) :
    (f.release i).table k = if k = i then .cleared else f.table k := by
  unfold release
  by_cases hk : k = i <;> cases (f.table i).kind <;> simp [setDescription, freePipe, hk]

theorem dropReference_kind (k : Fin 64) :
    ((f.dropReference i).table k).kind = (f.table k).kind := by
  rw [dropReference_table]
  split
  next hk => rw [hk]
  · rfl

/-- The descriptions in use after a step were in use before, with no fewer references;
those that still have references are otherwise as they were. -/
structure Shrinks (f g : Files) : Prop where
  used : ∀ i, (g.table i).used = true → (f.table i).used = true
  refs : ∀ i, (g.table i).used = true → (g.table i).refs ≤ (f.table i).refs
  same : ∀ i, (g.table i).used = true → (g.table i).refs ≠ 0 →
    g.table i = { f.table i with refs := (g.table i).refs }
  shm : ∀ i size, (g.table i).used = true →
    ((g.table i).kind = .shm size ↔ (f.table i).kind = .shm size)
  created : g.created = f.created

theorem dropReference_shrinks : Shrinks f (f.dropReference i) := by
  refine ⟨fun k hk => ?_, fun k hk => ?_, fun k hk hrefs => ?_, fun k size hk => ?_,
    dropReference_created⟩
  · rw [dropReference_table] at hk
    split at hk
    next hki => rwa [hki]
    · exact hk
  · rw [dropReference_table]
    split
    next hki =>
      rw [hki]
      exact Nat.sub_le _ _
    · exact le_refl _
  · rw [dropReference_table]
    split
    next hki => rw [hki]
    · rfl
  · rw [dropReference_kind]

def living (f : Files) : ℕ :=
  (Finset.univ.filter fun i => (f.table i).used = true ∧ (f.table i).refs ≠ 0).card

theorem dropReference_living (hused : (f.table i).used = true) (hone : (f.table i).refs = 1) :
    (f.dropReference i).living < f.living := by
  refine Finset.card_lt_card (Finset.ssubset_iff_of_subset (fun k hk => ?_) |>.2 ⟨i, ?_, ?_⟩)
  · rw [Finset.mem_filter] at hk ⊢
    have hshrinks := @dropReference_shrinks f i
    have hrefs := hshrinks.refs k hk.2.1
    exact ⟨hk.1, hshrinks.used k hk.2.1, by omega⟩
  · rw [Finset.mem_filter]
    exact ⟨Finset.mem_univ i, hused, by omega⟩
  · rw [Finset.mem_filter, dropReference_table, if_pos rfl]
    rintro ⟨-, -, hrefs⟩
    exact hrefs (by simp only [hone])

theorem living_le (f : Files) : f.living ≤ 64 := by
  refine (Finset.card_le_univ _).trans ?_
  simp

theorem allocateDescriptor_eq_some {readable writable : Bool} {kind : Kind}
    (halloc : f.allocateDescriptor readable writable kind = some (i, g)) :
    (f.table i).used = false ∧ g = f.setDescription i
      { used := true, refs := 1, readable := readable, writable := writable, kind := kind } := by
  unfold allocateDescriptor at halloc
  cases hfind : (List.finRange 64).find? fun i => !(f.table i).used with
  | none =>
    rw [hfind] at halloc
    exact absurd halloc (by simp)
  | some k =>
    rw [hfind] at halloc
    obtain ⟨rfl, rfl⟩ := Prod.mk.inj (Option.some.inj halloc)
    have hunused := List.find?_some hfind
    exact ⟨by simpa using hunused, rfl⟩

end Files

end Descriptors

end NPKernel
