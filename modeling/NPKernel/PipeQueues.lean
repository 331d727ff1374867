import NPKernel.OpenDescriptions
import NPKernel.GuardedRuns
import NPKernel.RingBuffers

/-!
# Pipes as bounded queues of bytes

The bytes of a pipe lie in a ring of `PIPE_CAPACITY` cells; `vfs_read` takes them at
the head and `vfs_write` puts them at the tail, one at a time.  Descriptions of a pipe
come and go by the other calls of `src/fs/vfs.c`, which leave its bytes alone.
-/

namespace NPKernel

namespace Descriptors

open GuardedRuns RingBuffers

structure Ring where
  buffer : ℕ → BitVec 8
  head : ℕ
  tail : ℕ

def Ring.zeroed : Ring where
  buffer := fun _ => 0
  head := 0
  tail := 0

def readRing : ℕ → Ring → List (BitVec 8) × Ring
  | 0, ring => ([], ring)
  | amount + 1, ring =>
    let (rest, last) := readRing amount { ring with head := (ring.head + 1) % PIPE_CAPACITY }
    (ring.buffer ring.head :: rest, last)

def writeRing : List (BitVec 8) → Ring → Ring
  | [], ring => ring
  | byte :: rest, ring =>
    writeRing rest
      { ring with
        buffer := Function.update ring.buffer ring.tail byte
        tail := (ring.tail + 1) % PIPE_CAPACITY }

structure Pipes where
  files : Files
  rings : ℕ → Ring

/-- What a read or a write returns: a number, the bytes that came out of a pipe, or those
that went into it.  Descriptions of other kinds are left out. -/
inductive Transfer where
  | returned (result : ℤ)
  | received (id : ℕ) (bytes : List (BitVec 8))
  | accepted (id : ℕ) (bytes : List (BitVec 8))
  | other

namespace Pipes

def boot : Pipes where
  files := .empty
  rings := fun _ => .zeroed

def vfsRead (s : Pipes) (handle count : ℕ) : Transfer × Pipes :=
  match descriptorSlot handle with
  | none => (.returned (-9), s)
  | some i =>
    if !(s.files.table i).used || !(s.files.table i).readable then (.returned (-9), s)
    else if count = 0 then (.returned 0, s)
    else
      match (s.files.table i).kind with
      | .pipe id =>
        let pipe := s.files.pipes id
        if pipe.count = 0 then (.returned (if pipe.writers ≠ 0 then -11 else 0), s)
        else
          let amount := min count pipe.count
          let (bytes, ring) := readRing amount (s.rings id)
          (.received id bytes,
            { files := s.files.setPipe id { pipe with count := pipe.count - amount }
              rings := Function.update s.rings id ring })
      | _ => (.other, s)

def vfsWrite (s : Pipes) (handle : ℕ) (bytes : List (BitVec 8)) : Transfer × Pipes :=
  match descriptorSlot handle with
  | none => (.returned (-9), s)
  | some i =>
    if !(s.files.table i).used || !(s.files.table i).writable then (.returned (-9), s)
    else if bytes.length = 0 then (.returned 0, s)
    else
      match (s.files.table i).kind with
      | .pipe id =>
        let pipe := s.files.pipes id
        if pipe.readers = 0 then (.returned (-32), s)
        else
          let available := PIPE_CAPACITY - pipe.count
          if available = 0 then (.returned (-11), s)
          else
            let amount := min bytes.length available
            (.accepted id (bytes.take amount),
              { files := s.files.setPipe id { pipe with count := pipe.count + amount }
                rings := Function.update s.rings id
                  (writeRing (bytes.take amount) (s.rings id)) })
      | _ => (.other, s)

def vfsPipeCreate (s : Pipes) (kcalloc : Bool) : Pipes :=
  if !kcalloc then s
  else
    match s.files.vfsPipeCreate with
    | none => s
    | some (_, _, files) =>
      { files := files, rings := Function.update s.rings s.files.created .zeroed }

end Pipes

inductive PipeCall where
  | openFlags (opened : Files.Opened)
  | shmCreate (size : ℕ)
  | epollCreate
  | epollCtl (epfd operation handle : ℕ) (events : BitVec 32) (data : Word)
  | pipeCreate (kcalloc : Bool)
  | retain (handle : ℕ)
  | close (handle : ℕ)
  | read (handle count : ℕ)
  | write (handle : ℕ) (bytes : List (BitVec 8))

/-- A depth that `vfs_close` never exceeds, as there are 64 descriptions. -/
def PIPE_CLOSE_DEPTH : ℕ := 65

namespace Pipes

def setFiles (s : Pipes) (files : Option (Fin 64 × Files)) : Pipes :=
  match files with
  | none => s
  | some (_, files) => { s with files := files }

def step (s : Pipes) : PipeCall → Option Pipes
  | .openFlags opened => some (s.setFiles (s.files.vfsOpenFlags opened))
  | .shmCreate size => some (s.setFiles (s.files.vfsShmCreate size))
  | .epollCreate => some (s.setFiles s.files.vfsEpollCreate)
  | .epollCtl epfd operation handle events data =>
    (s.files.vfsEpollCtl PIPE_CLOSE_DEPTH epfd operation handle events data).map fun closed =>
      { s with files := closed.files }
  | .pipeCreate kcalloc => some (s.vfsPipeCreate kcalloc)
  | .retain handle => some { s with files := (s.files.vfsRetain handle).2 }
  | .close handle =>
    (s.files.vfsClose PIPE_CLOSE_DEPTH handle).map fun closed =>
      { s with files := closed.files }
  | .read handle count => some (s.vfsRead handle count).2
  | .write handle bytes => some (s.vfsWrite handle bytes).2

def transfers (s : Pipes) : PipeCall → List Transfer
  | .read handle count => [(s.vfsRead handle count).1]
  | .write handle bytes => [(s.vfsWrite handle bytes).1]
  | _ => []

end Pipes

/-! ## The rings -/

def Ring.contents (ring : Ring) (count : ℕ) : List (BitVec 8) :=
  RingBuffers.contents PIPE_CAPACITY ring.head ring.buffer count

structure Ring.Ok (ring : Ring) (count : ℕ) : Prop where
  head : ring.head < PIPE_CAPACITY
  tail : ring.tail = (ring.head + count) % PIPE_CAPACITY
  count : count ≤ PIPE_CAPACITY

theorem Ring.zeroed_ok : Ring.zeroed.Ok 0 where
  head := by decide
  tail := rfl
  count := by decide

theorem readRing_spec {ring : Ring} {count amount : ℕ} (h : ring.Ok count) (hle : amount ≤ count) :
    (readRing amount ring).1 = (ring.contents count).take amount ∧
      (readRing amount ring).2.contents (count - amount) = (ring.contents count).drop amount ∧
      (readRing amount ring).2.Ok (count - amount) := by
  induction amount generalizing ring count with
  | zero => exact ⟨rfl, rfl, h⟩
  | succ amount ih =>
    obtain ⟨count, rfl⟩ : ∃ more, count = more + 1 := ⟨count - 1, by omega⟩
    have hnext : Ring.Ok { ring with head := (ring.head + 1) % PIPE_CAPACITY } count := by
      refine ⟨Nat.mod_lt _ (by decide), ?_, Nat.le_of_succ_le h.count⟩
      show ring.tail = _
      rw [h.tail, Nat.mod_add_mod, add_right_comm, add_assoc]
    obtain ⟨hbytes, hrest, hok⟩ := ih hnext (Nat.le_of_succ_le_succ hle)
    have hpop : ring.contents (count + 1) = ring.buffer ring.head ::
        Ring.contents { ring with head := (ring.head + 1) % PIPE_CAPACITY } count :=
      contents_pop h.head
    rw [hpop, Nat.add_sub_add_right]
    refine ⟨?_, hrest, hok⟩
    rw [List.take_succ_cons, ← hbytes]
    rfl

theorem writeRing_spec {ring : Ring} {count : ℕ} {bytes : List (BitVec 8)} (h : ring.Ok count)
    (hroom : count + bytes.length ≤ PIPE_CAPACITY) :
    (writeRing bytes ring).contents (count + bytes.length) = ring.contents count ++ bytes ∧
      (writeRing bytes ring).Ok (count + bytes.length) := by
  induction bytes generalizing ring count with
  | nil => exact ⟨(List.append_nil _).symm, h⟩
  | cons byte rest ih =>
    rw [List.length_cons] at hroom
    have hnext : Ring.Ok
        { ring with
          buffer := Function.update ring.buffer ring.tail byte
          tail := (ring.tail + 1) % PIPE_CAPACITY } (count + 1) := by
      refine ⟨h.head, ?_, by omega⟩
      show (ring.tail + 1) % PIPE_CAPACITY = _
      rw [h.tail, Nat.mod_add_mod, add_assoc]
    have hpush : Ring.contents
        { ring with
          buffer := Function.update ring.buffer ring.tail byte
          tail := (ring.tail + 1) % PIPE_CAPACITY } (count + 1) =
        ring.contents count ++ [byte] := by
      unfold Ring.contents
      dsimp only
      rw [h.tail]
      exact contents_push (by omega) byte
    obtain ⟨hcontents, hok⟩ := ih hnext (by omega)
    rw [writeRing, List.length_cons, Nat.add_comm rest.length 1, ← add_assoc]
    refine ⟨?_, hok⟩
    rw [hcontents, hpush, List.append_assoc]
    rfl

/-! ## Calls that leave the bytes alone -/

namespace Files

structure SameFill (f g : Files) : Prop where
  count : ∀ id, (g.pipes id).count = (f.pipes id).count
  created : g.created = f.created
  kind : ∀ i id, (g.table i).kind = .pipe id → (f.table i).kind = .pipe id

variable {f g k : Files} {i : Fin 64}

theorem SameFill.refl (f : Files) : SameFill f f := ⟨fun _ => rfl, rfl, fun _ _ h => h⟩

theorem SameFill.trans (hfg : SameFill f g) (hgk : SameFill g k) : SameFill f k := by
  constructor
  · intro id
    exact (hgk.count id).trans (hfg.count id)
  · exact hgk.created.trans hfg.created
  · intro i id hkind
    exact hfg.kind i id (hgk.kind i id hkind)

theorem SameFill.setDescription {d : Description}
    (hkind : ∀ id, d.kind = .pipe id → (f.table i).kind = .pipe id) :
    SameFill f (f.setDescription i d) := by
  refine ⟨fun _ => rfl, rfl, ?_⟩
  intro k id hk
  by_cases hki : k = i
  · subst hki
    simp only [Files.setDescription, Function.update_self] at hk
    exact hkind id hk
  · simp only [Files.setDescription, Function.update_of_ne hki] at hk
    exact hk

theorem SameFill.setPipe {id : ℕ} {pipe : Pipe} (hcount : pipe.count = (f.pipes id).count) :
    SameFill f (f.setPipe id pipe) := by
  refine ⟨?_, rfl, fun _ _ h => h⟩
  intro other
  by_cases hother : other = id
  · subst hother
    simp only [Files.setPipe, Function.update_self]
    exact hcount
  · simp only [Files.setPipe, Function.update_of_ne hother]

theorem allocateDescriptor_sameFill {readable writable : Bool} {kind : Kind}
    (hkind : ∀ id, kind ≠ .pipe id)
    (h : f.allocateDescriptor readable writable kind = some (i, g)) : SameFill f g := by
  unfold allocateDescriptor at h
  split at h
  · simp at h
  · obtain ⟨rfl, rfl⟩ := Prod.mk.inj (Option.some.inj h)
    apply SameFill.setDescription
    intro id hid
    exact absurd hid (hkind id)

theorem addReference_sameFill : SameFill f (f.addReference i) := by
  unfold addReference
  dsimp only
  have hdescription : SameFill f
      (f.setDescription i { f.table i with refs := (f.table i).refs + 1 }) :=
    SameFill.setDescription fun _ h => h
  split
  · exact hdescription.trans (SameFill.setPipe rfl)
  · exact hdescription

theorem dropReference_sameFill : SameFill f (f.dropReference i) := by
  unfold dropReference
  dsimp only
  have hdescription : SameFill f
      (f.setDescription i { f.table i with refs := (f.table i).refs - 1 }) :=
    SameFill.setDescription fun _ h => h
  split
  · exact hdescription.trans (SameFill.setPipe rfl)
  · exact hdescription

theorem setWatch_sameFill (j : Fin 32) (watch : Option Watch) :
    SameFill f (f.setWatch i j watch) := by
  unfold setWatch
  split
  · apply SameFill.setDescription
    intro id hid
    simp at hid
  · exact SameFill.refl f

theorem release_sameFill : SameFill f (f.release i) := by
  have hcleared : SameFill f (f.setDescription i .cleared) := by
    apply SameFill.setDescription
    intro id hid
    simp [Description.cleared] at hid
  unfold release
  split
  · exact ⟨hcleared.count, hcleared.created, hcleared.kind⟩
  · exact hcleared

theorem vfsPipeCreate_eq_some {reader writer : Fin 64}
    (h : f.vfsPipeCreate = some (reader, writer, g)) :
    g.pipes = Function.update f.pipes f.created ⟨0, 1, 1⟩ ∧ g.created = f.created + 1 ∧
      ∀ i id, (g.table i).kind = .pipe id → (f.table i).kind = .pipe id ∨ id = f.created := by
  revert h
  fun_cases vfsPipeCreate f with
  | case3 _ _ _ hreader _ _ hwriter =>
    obtain ⟨-, rfl⟩ := allocateDescriptor_eq_some hreader
    obtain ⟨-, rfl⟩ := allocateDescriptor_eq_some hwriter
    rintro ⟨⟩
    refine ⟨rfl, rfl, ?_⟩
    intro i id hkind
    simp only [Files.setPipe, Files.setDescription, Function.update_apply] at hkind
    split at hkind
    · exact Or.inr (Kind.pipe.inj hkind).symm
    · split at hkind
      · exact Or.inr (Kind.pipe.inj hkind).symm
      · exact Or.inl hkind
  | _ => rintro ⟨⟩

structure Kept (P : Files → Prop) : Prop where
  add : ∀ {f i}, P f → P (f.addReference i)
  drop : ∀ {f i}, P f → P (f.dropReference i)
  watch : ∀ {f i j watch}, P f → P (f.setWatch i j watch)
  release : ∀ {f i}, P f → P (f.release i)

theorem SameFill.kept : Kept (SameFill f) where
  add h := h.trans addReference_sameFill
  drop h := h.trans dropReference_sameFill
  watch h := h.trans (setWatch_sameFill _ _)
  release h := h.trans release_sameFill

variable {P : Files → Prop}

theorem Kept.vfsRetain (hP : Kept P) (h : P f) (handle : ℕ) : P (f.vfsRetain handle).2 := by
  fun_cases f.vfsRetain handle with
  | case4 => exact hP.add h
  | _ => exact h

/-! ### Closing comes to an end -/

def Fewer (f g : Files) : Prop :=
  ∀ i, (g.table i).used = true ∧ (g.table i).refs ≠ 0 →
    (f.table i).used = true ∧ (f.table i).refs ≠ 0

theorem Fewer.living_le (h : Fewer f g) : g.living ≤ f.living := by
  apply Finset.card_le_card
  intro i hi
  rw [Finset.mem_filter] at hi ⊢
  exact ⟨hi.1, h i hi.2⟩

theorem Fewer.trans (hfg : Fewer f g) (hgk : Fewer g k) : Fewer f k :=
  fun i hi => hfg i (hgk i hi)

theorem setWatch_fewer (j : Fin 32) (watch : Option Watch) : Fewer f (f.setWatch i j watch) := by
  intro k hk
  unfold setWatch at hk
  split at hk
  · by_cases hki : k = i
    · subst hki
      simpa [Files.setDescription] using hk
    · simp only [Files.setDescription, Function.update_of_ne hki] at hk
      exact hk
  · exact hk

theorem dropReference_fewer : Fewer f (f.dropReference i) := by
  intro k hk
  rw [dropReference_table] at hk
  split at hk
  next hki =>
    subst hki
    have hrefs : (f.table k).refs - 1 ≠ 0 := hk.2
    exact ⟨hk.1, by omega⟩
  · exact hk

theorem release_fewer : Fewer f (f.release i) := by
  intro k hk
  rw [release_table] at hk
  split at hk
  · simp [Description.cleared] at hk
  · exact hk

theorem closeWatches_total (hP : Kept P) {close : Files → ℕ → Option Closed} {bound : ℕ}
    (hclose : ∀ f handle, P f → f.living < bound →
      ∃ closed, close f handle = some closed ∧ Fewer f closed.files ∧ P closed.files)
    (js : List (Fin 32)) (h : P f) (hliving : f.living < bound) :
    ∃ objects g, closeWatches close i js f = some (objects, g) ∧ Fewer f g ∧ P g := by
  induction js generalizing f with
  | nil => exact ⟨[], f, rfl, fun _ h => h, h⟩
  | cons j rest ih =>
    rw [closeWatches]
    cases f.watchAt i j with
    | none => exact ih h hliving
    | some watch =>
      obtain ⟨closed, hclosed, hfewer, hkept⟩ := hclose f watch.fd h hliving
      have hfewer' := hfewer.trans (@setWatch_fewer closed.files i j none)
      obtain ⟨objects, g, hrest, hg, hgkept⟩ :=
        ih (hP.watch hkept) (lt_of_le_of_lt hfewer'.living_le hliving)
      dsimp only
      rw [hclosed]
      dsimp only
      rw [hrest]
      exact ⟨_, g, rfl, hfewer'.trans hg, hgkept⟩

/-- `vfs_close` ends: every nested call closes a description that still has references,
and the outer ones have none left. -/
theorem vfsClose_total (hP : Kept P) (depth : ℕ) (f : Files) (handle : ℕ) (h : P f)
    (hliving : f.living < depth) :
    ∃ closed, vfsClose depth f handle = some closed ∧ Fewer f closed.files ∧ P closed.files := by
  induction depth generalizing f handle with
  | zero => exact absurd hliving (Nat.not_lt_zero _)
  | succ depth ih =>
    have hsame : Fewer f f ∧ P f := ⟨fun _ h => h, h⟩
    rw [vfsClose]
    split
    · exact ⟨_, rfl, hsame⟩
    split
    · exact ⟨_, rfl, hsame⟩
    next i _ =>
    split
    · exact ⟨_, rfl, hsame⟩
    next hopen =>
    simp only [Bool.or_eq_true, Bool.not_eq_true', decide_eq_true_eq, not_or,
      Bool.not_eq_false] at hopen
    dsimp only
    split
    · exact ⟨_, rfl, dropReference_fewer, hP.drop h⟩
    next hlast =>
    have hone : (f.table i).refs = 1 := by
      rw [dropReference_table, if_pos rfl] at hlast
      have hzero : (f.table i).refs - 1 = 0 := not_not.1 hlast
      omega
    have hbelow : (f.dropReference i).living < depth :=
      lt_of_lt_of_le (dropReference_living hopen.1 hone) (Nat.le_of_lt_succ hliving)
    obtain ⟨objects, g, hloop, hfewer, hkept⟩ :=
      @closeWatches_total _ i P hP (vfsClose depth) depth ih (List.finRange 32) (hP.drop h) hbelow
    rw [hloop]
    exact ⟨_, rfl, (dropReference_fewer.trans hfewer).trans release_fewer, hP.release hkept⟩

/-- Whatever the epoll objects watch, closing returns and brings no description back. -/
theorem vfs_close_returns (f : Files) (handle : ℕ) :
    ∃ closed, vfsClose PIPE_CLOSE_DEPTH f handle = some closed ∧ Fewer f closed.files ∧
      SameFill f closed.files :=
  vfsClose_total SameFill.kept PIPE_CLOSE_DEPTH f handle (.refl f)
    (lt_of_le_of_lt f.living_le (by decide))

theorem Kept.vfsClose (hP : Kept P) (h : P f) (handle : ℕ) :
    ∃ closed, Files.vfsClose PIPE_CLOSE_DEPTH f handle = some closed ∧ P closed.files := by
  obtain ⟨closed, hclosed, -, hkept⟩ :=
    vfsClose_total hP PIPE_CLOSE_DEPTH f handle h (lt_of_le_of_lt f.living_le (by decide))
  exact ⟨closed, hclosed, hkept⟩

theorem Kept.vfsEpollCtl (hP : Kept P) (h : P f) (epfd operation handle : ℕ)
    (events : BitVec 32) (data : Word) :
    ∃ closed, f.vfsEpollCtl PIPE_CLOSE_DEPTH epfd operation handle events data = some closed ∧
      P closed.files := by
  have hcontrol : ∀ i, ∃ closed,
      f.controlWatches PIPE_CLOSE_DEPTH i operation handle events data = some closed ∧
        P closed.files := by
    intro i
    unfold controlWatches
    dsimp only
    split
    · split
      · exact ⟨_, rfl, h⟩
      · exact ⟨_, rfl, h⟩
      · have hretain := hP.vfsRetain h handle
        split
        · exact ⟨_, rfl, hretain⟩
        · exact ⟨_, rfl, hP.watch hretain⟩
    · split
      · split
        · exact ⟨_, rfl, h⟩
        · obtain ⟨closed, hclosed, hkept⟩ := hP.vfsClose h handle
          rw [hclosed]
          exact ⟨_, rfl, hP.watch hkept⟩
      · split
        · split
          · exact ⟨_, rfl, h⟩
          · exact ⟨_, rfl, hP.watch h⟩
        · exact ⟨_, rfl, h⟩
  fun_cases f.vfsEpollCtl PIPE_CLOSE_DEPTH epfd operation handle events data with
  | case4 i | case5 i => exact hcontrol i
  | _ => exact ⟨_, rfl, h⟩

end Files

/-! ## Queues -/

def sentTo (id : ℕ) : List Transfer → List (BitVec 8)
  | [] => []
  | .accepted other bytes :: rest => (if other = id then bytes else []) ++ sentTo id rest
  | _ :: rest => sentTo id rest

def receivedFrom (id : ℕ) : List Transfer → List (BitVec 8)
  | [] => []
  | .received other bytes :: rest => (if other = id then bytes else []) ++ receivedFrom id rest
  | _ :: rest => receivedFrom id rest

theorem sentTo_append (id : ℕ) (history more : List Transfer) :
    sentTo id (history ++ more) = sentTo id history ++ sentTo id more := by
  induction history with
  | nil => rfl
  | cons transfer rest ih => cases transfer <;> simp [sentTo, ih]

theorem receivedFrom_append (id : ℕ) (history more : List Transfer) :
    receivedFrom id (history ++ more) = receivedFrom id history ++ receivedFrom id more := by
  induction history with
  | nil => rfl
  | cons transfer rest ih => cases transfer <;> simp [receivedFrom, ih]

/-- What is in a pipe is what was written to it and has not been read. -/
structure Queues (history : List Transfer) (s : Pipes) : Prop where
  ring : ∀ id, (s.rings id).Ok (s.files.pipes id).count
  queue : ∀ id, sentTo id history =
    receivedFrom id history ++ (s.rings id).contents (s.files.pipes id).count
  unused : ∀ id, s.files.created ≤ id → sentTo id history = [] ∧ receivedFrom id history = []
  known : ∀ i id, (s.files.table i).kind = .pipe id → id < s.files.created

section queues

variable {history : List Transfer} {s : Pipes}

theorem Queues.boot : Queues [] Pipes.boot where
  ring _ := Ring.zeroed_ok
  queue _ := rfl
  unused _ _ := ⟨rfl, rfl⟩
  known i id h := by simp [Pipes.boot, Files.empty, Description.cleared] at h

variable (h : Queues history s)

include h

theorem Queues.setFiles {files : Files} (hfill : Files.SameFill s.files files) :
    Queues history { s with files := files } := by
  constructor
  · intro id
    rw [hfill.count]
    exact h.ring id
  · intro id
    rw [hfill.count]
    exact h.queue id
  · intro id hid
    exact h.unused id (hfill.created.symm.trans_le hid)
  · intro i id hkind
    exact (h.known i id (hfill.kind i id hkind)).trans_eq hfill.created.symm

theorem Queues.idle {transfer : Transfer}
    (hsent : ∀ id, sentTo id [transfer] = []) (hreceived : ∀ id, receivedFrom id [transfer] = []) :
    Queues (history ++ [transfer]) s := by
  constructor
  · exact h.ring
  · intro id
    rw [sentTo_append, receivedFrom_append, hsent, hreceived, List.append_nil, List.append_nil]
    exact h.queue id
  · intro id hid
    rw [sentTo_append, receivedFrom_append, hsent, hreceived, List.append_nil, List.append_nil]
    exact h.unused id hid
  · exact h.known

theorem Queues.returned (result : ℤ) : Queues (history ++ [.returned result]) s :=
  h.idle (fun _ => rfl) (fun _ => rfl)

theorem Queues.change {transfer : Transfer} {id count : ℕ} {ring : Ring}
    {i : Fin 64} (hkind : (s.files.table i).kind = .pipe id) (hring : ring.Ok count)
    (hqueue : sentTo id (history ++ [transfer]) =
      receivedFrom id (history ++ [transfer]) ++ ring.contents count)
    (hothers : ∀ other, other ≠ id → sentTo other [transfer] = [] ∧
      receivedFrom other [transfer] = []) :
    Queues (history ++ [transfer])
      { files := s.files.setPipe id { s.files.pipes id with count := count }
        rings := Function.update s.rings id ring } := by
  have hbefore : ∀ other, other ≠ id → sentTo other (history ++ [transfer]) = sentTo other history ∧
      receivedFrom other (history ++ [transfer]) = receivedFrom other history := by
    intro other hother
    rw [sentTo_append, receivedFrom_append, (hothers other hother).1, (hothers other hother).2]
    exact ⟨List.append_nil _, List.append_nil _⟩
  constructor
  · intro other
    by_cases hother : other = id
    · subst hother
      simpa [Files.setPipe] using hring
    · simpa [Files.setPipe, hother] using h.ring other
  · intro other
    by_cases hother : other = id
    · subst hother
      simpa [Files.setPipe] using hqueue
    · rw [(hbefore other hother).1, (hbefore other hother).2]
      simpa [Files.setPipe, hother] using h.queue other
  · intro other hcreated
    have hlt := h.known i id hkind
    have hcreated' : s.files.created ≤ other := hcreated
    have hother : other ≠ id := by omega
    rw [(hbefore other hother).1, (hbefore other hother).2]
    exact h.unused other hcreated'
  · exact h.known

theorem Queues.vfsRead {i : Fin 64} {id count : ℕ}
    (hused : (s.files.table i).used = true) (hreadable : (s.files.table i).readable = true)
    (hkind : (s.files.table i).kind = .pipe id) (hcount : 0 < count) :
    (s.vfsRead (descriptorNumber i) count).1 =
      if (s.files.pipes id).count = 0 then
        .returned (if (s.files.pipes id).writers ≠ 0 then -11 else 0)
      else .received id (((s.rings id).contents (s.files.pipes id).count).take count) := by
  unfold Pipes.vfsRead
  rw [Files.descriptorSlot_number]
  simp only [hused, hreadable, hkind, hcount.ne', Bool.not_true, Bool.or_self, Bool.false_eq_true,
    if_false]
  by_cases hempty : (s.files.pipes id).count = 0
  · rw [if_pos hempty, if_pos hempty]
  rw [if_neg hempty, if_neg hempty]
  have hbytes := (readRing_spec (h.ring id) (min_le_right count _)).1
  simp only [hbytes]
  congr 1
  apply List.take_eq_take_iff.2
  simp [Ring.contents]

omit h in
theorem Pipes.vfsWrite_pipe {i : Fin 64} {id : ℕ} {bytes : List (BitVec 8)}
    (hused : (s.files.table i).used = true) (hwritable : (s.files.table i).writable = true)
    (hkind : (s.files.table i).kind = .pipe id) (hbytes : bytes ≠ []) :
    (s.vfsWrite (descriptorNumber i) bytes).1 =
      if (s.files.pipes id).readers = 0 then .returned (-32)
      else if PIPE_CAPACITY ≤ (s.files.pipes id).count then .returned (-11)
      else .accepted id (bytes.take (PIPE_CAPACITY - (s.files.pipes id).count)) := by
  have hlength : bytes.length ≠ 0 := by simpa using hbytes
  unfold Pipes.vfsWrite
  rw [Files.descriptorSlot_number]
  simp only [hused, hwritable, hkind, hlength, Bool.not_true, Bool.or_self, Bool.false_eq_true,
    if_false]
  by_cases hreaders : (s.files.pipes id).readers = 0
  · rw [if_pos hreaders, if_pos hreaders]
  rw [if_neg hreaders, if_neg hreaders]
  by_cases hfull : PIPE_CAPACITY ≤ (s.files.pipes id).count
  · rw [if_pos (Nat.sub_eq_zero_of_le hfull), if_pos hfull]
  · rw [if_neg (by omega), if_neg hfull]
    simp only
    congr 1
    apply List.take_eq_take_iff.2
    omega

theorem Queues.afterRead (handle count : ℕ) :
    Queues (history ++ [(s.vfsRead handle count).1]) (s.vfsRead handle count).2 := by
  fun_cases s.vfsRead handle count with
  | case5 i _ _ _ id hkind pipe _ amount bytes ring hread =>
    obtain ⟨hbytes, hrest, hok⟩ := readRing_spec (h.ring id) (min_le_right count pipe.count)
    rw [hread] at hbytes hrest hok
    apply h.change hkind hok
    · rw [sentTo_append, receivedFrom_append, h.queue id, hrest]
      simp [sentTo, receivedFrom, show bytes = _ from hbytes]
    · intro other hother
      simp [sentTo, receivedFrom, hother.symm]
  | case6 => exact h.idle (fun _ => rfl) (fun _ => rfl)
  | _ => exact h.returned _

theorem Queues.afterWrite (handle : ℕ) (bytes : List (BitVec 8)) :
    Queues (history ++ [(s.vfsWrite handle bytes).1]) (s.vfsWrite handle bytes).2 := by
  fun_cases s.vfsWrite handle bytes with
  | case6 i _ _ _ id hkind pipe _ room hroom amount =>
    have hlength : (bytes.take amount).length = amount := by
      rw [List.length_take]
      omega
    have hring : (s.rings id).Ok pipe.count := h.ring id
    obtain ⟨hcontents, hok⟩ := @writeRing_spec _ _ (bytes.take amount) hring (by omega)
    rw [hlength] at hcontents hok
    apply h.change hkind hok
    · rw [sentTo_append, receivedFrom_append, h.queue id, hcontents]
      simp [sentTo, receivedFrom, pipe]
    · intro other hother
      simp [sentTo, receivedFrom, hother.symm]
  | case7 => exact h.idle (fun _ => rfl) (fun _ => rfl)
  | _ => exact h.returned _

theorem Queues.pipeCreate (kcalloc : Bool) : Queues history (s.vfsPipeCreate kcalloc) := by
  unfold Pipes.vfsPipeCreate
  split
  · exact h
  split
  · exact h
  next reader writer files hcreate =>
  obtain ⟨hpipes, hcreated, hkinds⟩ := Files.vfsPipeCreate_eq_some hcreate
  constructor
  · intro id
    dsimp only
    by_cases hid : id = s.files.created
    · rw [hpipes, hid, Function.update_self, Function.update_self]
      exact Ring.zeroed_ok
    · rw [hpipes, Function.update_of_ne hid, Function.update_of_ne hid]
      exact h.ring id
  · intro id
    dsimp only
    by_cases hid : id = s.files.created
    · obtain ⟨hsent, hreceived⟩ := h.unused id hid.ge
      rw [hsent, hreceived, hpipes, hid, Function.update_self, Function.update_self]
      rfl
    · rw [hpipes, Function.update_of_ne hid, Function.update_of_ne hid]
      exact h.queue id
  · intro id hid
    rw [hcreated] at hid
    exact h.unused id (Nat.le_of_succ_le hid)
  · intro i id hkind
    rw [hcreated]
    rcases hkinds i id hkind with hbefore | hnew
    · exact (h.known i id hbefore).trans (Nat.lt_succ_self _)
    · rw [hnew]
      exact Nat.lt_succ_self _

theorem Queues.setFound {found : Option (Fin 64 × Files)}
    (hfill : ∀ i files, found = some (i, files) → Files.SameFill s.files files) :
    Queues history (s.setFiles found) := by
  unfold Pipes.setFiles
  split
  · exact h
  next i files => exact h.setFiles (hfill i files rfl)

theorem Queues.step (call : PipeCall) :
    ∃ next, s.step call = some next ∧ Queues (history ++ s.transfers call) next := by
  have hquiet : ∀ next, Queues history next → Queues (history ++ []) next := by
    intro next hnext
    rw [List.append_nil]
    exact hnext
  have hfiles := @Files.SameFill.kept s.files
  cases call with
  | openFlags opened =>
    refine ⟨_, rfl, hquiet _ (h.setFound ?_)⟩
    intro i files hfiles
    cases opened <;> exact Files.allocateDescriptor_sameFill (by simp) hfiles
  | shmCreate | epollCreate =>
    refine ⟨_, rfl, hquiet _ (h.setFound ?_)⟩
    intro i files hfiles
    exact Files.allocateDescriptor_sameFill (by simp) hfiles
  | epollCtl epfd operation handle events data =>
    obtain ⟨closed, hclosed, hfill⟩ :=
      hfiles.vfsEpollCtl (Files.SameFill.refl _) epfd operation handle events data
    rw [Pipes.step, hclosed]
    exact ⟨_, rfl, hquiet _ (h.setFiles hfill)⟩
  | pipeCreate kcalloc => exact ⟨_, rfl, hquiet _ (h.pipeCreate kcalloc)⟩
  | retain handle =>
    exact ⟨_, rfl, hquiet _ (h.setFiles (hfiles.vfsRetain (Files.SameFill.refl _) handle))⟩
  | close handle =>
    obtain ⟨closed, hclosed, hfill⟩ := hfiles.vfsClose (Files.SameFill.refl _) handle
    rw [Pipes.step, hclosed]
    exact ⟨_, rfl, hquiet _ (h.setFiles hfill)⟩
  | read handle count => exact ⟨_, rfl, h.afterRead handle count⟩
  | write handle bytes => exact ⟨_, rfl, h.afterWrite handle bytes⟩

end queues

theorem foldl_concat (history more : List Transfer) :
    more.foldl (fun history transfer => history ++ [transfer]) history = history ++ more := by
  induction more generalizing history with
  | nil => simp
  | cons transfer rest ih => simp [ih]

theorem queues_run (calls : List PipeCall) :
    ∃ last, run Pipes.step Pipes.boot calls = some last ∧
      Queues (observations Pipes.step Pipes.transfers Pipes.boot calls) last := by
  have htotal : ∀ s call, (∃ history, Queues history s) → True →
      ∃ next, Pipes.step s call = some next ∧ ∃ history, Queues history next := by
    rintro s call ⟨history, h⟩ _
    obtain ⟨next, hnext, hqueues⟩ := h.step call
    exact ⟨next, hnext, _, hqueues⟩
  have hguard : Guarded Pipes.step (fun _ _ => True) Pipes.boot calls :=
    Guarded.of_forall fun _ _ _ => trivial
  obtain ⟨last, hrun, -⟩ := total_run htotal ⟨[], Queues.boot⟩ hguard
  refine ⟨last, hrun, ?_⟩
  have hpreserve : ∀ history s call next, Queues history s → True →
      Pipes.step s call = some next →
      Queues ((Pipes.transfers s call).foldl (fun history transfer => history ++ [transfer])
        history) next := by
    intro history s call next h _ hstep
    obtain ⟨next', hnext, hqueues⟩ := h.step call
    rw [foldl_concat, ← Option.some.inj (hnext.symm.trans hstep)]
    exact hqueues
  have hlast := fold_run hpreserve Queues.boot hguard hrun
  rwa [foldl_concat, List.nil_append] at hlast

/-- Every pipe is a queue of at most `PIPE_CAPACITY` bytes, whatever calls are made in
whatever order: what reads returned is a prefix of what writes accepted, and the rest is
in its buffer.  A read takes as much of it as it asked for, a write adds as much as there is
room for, and only an empty buffer with a writer left, and a full one, give `-EAGAIN`. -/
theorem pipes_are_bounded_queues (calls : List PipeCall) :
    ∃ last, run Pipes.step Pipes.boot calls = some last ∧
      ∀ id, ∃ buffered : List (BitVec 8),
        sentTo id (observations Pipes.step Pipes.transfers Pipes.boot calls) =
          receivedFrom id (observations Pipes.step Pipes.transfers Pipes.boot calls) ++ buffered ∧
        buffered.length = (last.files.pipes id).count ∧ buffered.length ≤ PIPE_CAPACITY ∧
        (∀ i count, (last.files.table i).used = true → (last.files.table i).readable = true →
          (last.files.table i).kind = .pipe id → 0 < count →
          (last.vfsRead (descriptorNumber i) count).1 =
            if buffered = [] then .returned (if (last.files.pipes id).writers ≠ 0 then -11 else 0)
            else .received id (buffered.take count)) ∧
        ∀ i bytes, (last.files.table i).used = true → (last.files.table i).writable = true →
          (last.files.table i).kind = .pipe id → bytes ≠ [] →
          (last.vfsWrite (descriptorNumber i) bytes).1 =
            if (last.files.pipes id).readers = 0 then .returned (-32)
            else if buffered.length = PIPE_CAPACITY then .returned (-11)
            else .accepted id (bytes.take (PIPE_CAPACITY - buffered.length)) := by
  obtain ⟨last, hrun, hqueues⟩ := queues_run calls
  refine ⟨last, hrun, ?_⟩
  intro id
  have hring := (hqueues.ring id).count
  have hlength : ((last.rings id).contents (last.files.pipes id).count).length =
      (last.files.pipes id).count := RingBuffers.length_contents
  refine ⟨(last.rings id).contents (last.files.pipes id).count, hqueues.queue id, hlength, ?_, ?_,
    ?_⟩
  · rw [hlength]
    exact hring
  · intro i count hused hreadable hkind hcount
    rw [hqueues.vfsRead hused hreadable hkind hcount]
    have hempty : (last.rings id).contents (last.files.pipes id).count = [] ↔
        (last.files.pipes id).count = 0 := by
      rw [← List.length_eq_zero_iff, hlength]
    by_cases hzero : (last.files.pipes id).count = 0
    · rw [if_pos hzero, if_pos (hempty.2 hzero)]
    · rw [if_neg hzero, if_neg (mt hempty.1 hzero)]
  · intro i bytes hused hwritable hkind hbytes
    rw [Pipes.vfsWrite_pipe hused hwritable hkind hbytes, hlength]
    by_cases hreaders : (last.files.pipes id).readers = 0
    · rw [if_pos hreaders, if_pos hreaders]
    · rw [if_neg hreaders, if_neg hreaders]
      by_cases hfull : (last.files.pipes id).count = PIPE_CAPACITY
      · rw [if_pos hfull, if_pos hfull.ge]
      · rw [if_neg hfull, if_neg (by omega)]

end Descriptors

end NPKernel
