import NPKernel.PhysicalMemory
import NPKernel.RadixTables

/-!
# Four-level page tables

The user half of an address space is a tree of tables labelled with the pages
that hold them.  The upper half is shared with the kernel and has no user entry,
and user mappings are never made with large pages.
-/

namespace NPKernel.Vm

open RadixTables

def USER_LIMIT : ℕ := 0x800000000000

/-- A present leaf entry: its page and its flag bits. -/
structure Pte where
  frame : ℕ
  write : Bool
  user : Bool
  pwt : Bool
  pcd : Bool
  nx : Bool
  cow : Bool
  shared : Bool
  device : Bool

structure PageFlags where
  write : Bool := false
  user : Bool := false
  pwt : Bool := false
  pcd : Bool := false
  nx : Bool := false
  shared : Bool := false
  device : Bool := false

abbrev PageTree := Tree (Fin 512) ℕ Pte

def canonical (address : ℕ) : Bool :=
  let upper := address / 2 ^ 48
  upper == 0 || upper == 0xffff

def tableIndex (address shift : ℕ) : Fin 512 := Fin.ofNat 512 (address / 2 ^ shift)

def pagePath (address : ℕ) : List (Fin 512) :=
  [tableIndex address 39, tableIndex address 30, tableIndex address 21, tableIndex address 12]

def leafEntry (frame : ℕ) (flags : PageFlags) : Pte :=
  { frame := frame, write := flags.write, user := flags.user, pwt := flags.pwt,
    pcd := flags.pcd, nx := flags.nx, cow := false, shared := flags.shared,
    device := flags.device }

def vmmIsUserRange (address length : ℕ) : Bool :=
  if length = 0 then decide (address < USER_LIMIT)
  else decide (address < USER_LIMIT) && decide (length ≤ USER_LIMIT - address) &&
    canonical address && canonical (address + length - 1)

def vmmMapPageRoot (frames : Frames) (tables : PageTree) (address frame : ℕ)
    (flags : PageFlags) : Bool × Frames × PageTree :=
  if address % NPK_PAGE_SIZE ≠ 0 || !canonical address then (false, frames, tables)
  else if flags.user && (decide (USER_LIMIT ≤ address) ||
      decide (USER_LIMIT - NPK_PAGE_SIZE < address)) then (false, frames, tables)
  else if 2 ^ 52 ≤ frame * NPK_PAGE_SIZE then (false, frames, tables)
  else Tree.insert allocFrame (leafEntry frame flags) tables (pagePath address) frames

theorem vmmMapPageRoot_cases (frames : Frames) (tables : PageTree) (address frame : ℕ)
    (flags : PageFlags) :
    vmmMapPageRoot frames tables address frame flags = (false, frames, tables) ∨
      (address % NPK_PAGE_SIZE = 0 ∧ (flags.user = true → address < USER_LIMIT) ∧
        vmmMapPageRoot frames tables address frame flags =
          Tree.insert allocFrame (leafEntry frame flags) tables (pagePath address) frames) := by
  fun_cases vmmMapPageRoot frames tables address frame flags with
  | case4 haligned huser =>
    right
    simp only [ne_eq, Bool.or_eq_true, decide_eq_true_eq, not_or, not_not] at haligned
    refine ⟨haligned.1, ?_, rfl⟩
    intro hflag
    simp only [hflag, Bool.true_and, Bool.or_eq_true, decide_eq_true_eq, not_or, not_le] at huser
    exact huser.1
  | _ => exact Or.inl rfl

theorem vmmMapPageRoot_bytes (frames : Frames) (tables : PageTree) (address frame : ℕ)
    (flags : PageFlags) :
    (vmmMapPageRoot frames tables address frame flags).2.1.bytes = frames.bytes := by
  have htaken : ∀ {frames frames' : Frames} {labels : List ℕ},
      Tree.Taken allocFrame frames labels frames' → frames'.bytes = frames.bytes := by
    intro frames frames' labels htaken
    induction htaken with
    | none s => rfl
    | @exhausted s s' halloc =>
      have hbytes := allocFrame_bytes s
      rwa [halloc] at hbytes
    | @cons s s' s'' label labels halloc hrest ih =>
      have hbytes := allocFrame_bytes s
      rw [halloc] at hbytes
      exact ih.trans hbytes
  rcases vmmMapPageRoot_cases frames tables address frame flags with hcase | ⟨_, _, hcase⟩
  · rw [hcase]
  · rw [hcase]
    obtain ⟨labels, hlabels, -⟩ := Tree.weight_insert allocFrame (leafEntry frame flags) tables
      (pagePath address) frames
    exact htaken hlabels

/-- The entry after `vmm_protect_page_root`, which keeps only the address and the
software bits of the old one. -/
def protectEntry (flags : PageFlags) (old : Pte) : Pte :=
  let updated := leafEntry old.frame flags
  { updated with
    shared := updated.shared || old.shared
    device := updated.device || old.device
    cow := old.cow
    write := updated.write && !old.cow }

def vmmProtectPageRoot (tables : PageTree) (address : ℕ) (flags : PageFlags) : Bool × PageTree :=
  if address % NPK_PAGE_SIZE ≠ 0 || !canonical address || !flags.user || flags.pwt ||
      flags.pcd || flags.shared || flags.device || decide (USER_LIMIT ≤ address) then
    (false, tables)
  else
    match tables.leafAt (pagePath address) with
    | none => (false, tables)
    | some old =>
      if !old.user then (false, tables)
      else (true, tables.alter (fun _ => some (protectEntry flags old)) (pagePath address))

/-- The address that an entry with the required flags maps to, or zero. -/
def vmmLookupRoot (tables : PageTree) (address : ℕ) (required : PageFlags) : ℕ :=
  if !canonical address then 0
  else
    match tables.leafAt (pagePath address) with
    | none => 0
    | some entry =>
      if (required.user && !entry.user) || (required.write && !entry.write) ||
          (required.nx && !entry.nx) then 0
      else entry.frame * NPK_PAGE_SIZE + address % NPK_PAGE_SIZE

def vmmUnmapPageRoot (tables : PageTree) (address : ℕ) : ℕ × PageTree :=
  if !canonical address then (0, tables)
  else
    match tables.leafAt (pagePath address) with
    | none => (0, tables)
    | some entry => (entry.frame, tables.alter (fun _ => none) (pagePath address))

def Pte.writable (entry : Pte) (frame : ℕ) : Pte :=
  { entry with frame := frame, write := true, cow := false }

def vmmResolveCowFault (frames : Frames) (tables : PageTree) (address : ℕ) :
    Bool × Frames × PageTree :=
  if !canonical address then (false, frames, tables)
  else
    match tables.leafAt (pagePath address) with
    | none => (false, frames, tables)
    | some entry =>
      if !entry.user || !entry.cow then (false, frames, tables)
      else
        let references := frameRefs frames entry.frame
        if references = 0 then (false, frames, tables)
        else if references = 1 then
          (true, frames,
            tables.alter (fun _ => some (entry.writable entry.frame)) (pagePath address))
        else
          match allocFrame frames with
          | (none, frames) => (false, frames, tables)
          | (some page, frames) =>
            (true, freeFrame (frames.store page (frames.bytes entry.frame)) entry.frame,
              tables.alter (fun _ => some (entry.writable page)) (pagePath address))

/-! ## Whole address spaces -/

def vmmCreateAddressSpace (frames : Frames) : Option PageTree × Frames :=
  match allocFrame frames with
  | (none, frames) => (none, frames)
  | (some root, frames) => (some (.table root fun _ => .absent), frames)

@[irreducible]
def tableIndices : List (Fin 512) := List.finRange 512

/-- What `clone_user_table` does with one entry. -/
inductive Visit where
  | stop
  | skip
  | copied (entry : PageTree)

/-- The loop of `clone_user_table` over the indices that are left.  Running out of
pages ends it, and reports that nothing was found. -/
def cloneLoop (visit : Fin 512 → Frames → Visit × Frames) :
    List (Fin 512) → Bool → (Fin 512 → PageTree) → Frames → Bool × (Fin 512 → PageTree) × Frames
  | [], found, destination, frames => (found, destination, frames)
  | i :: rest, found, destination, frames =>
    match visit i frames with
    | (.stop, frames) => (false, destination, frames)
    | (.skip, frames) => cloneLoop visit rest found destination frames
    | (.copied entry, frames) =>
      cloneLoop visit rest true (Function.update destination i entry) frames

def cloneEntry : PageTree → Frames → Visit × Frames
  | .absent, frames => (.skip, frames)
  | .leaf entry, frames =>
    if !entry.user || entry.device then (.skip, frames)
    else (.copied (.leaf entry), retainFrame frames entry.frame)
  | .table _ entries, frames =>
    match allocFrame frames with
    | (none, frames) => (.stop, frames)
    | (some child, frames) =>
      match cloneLoop (fun i => cloneEntry (entries i)) tableIndices false
          (fun _ => .absent) frames with
      | (false, _, frames) => (.skip, freeFrame frames child)
      | (true, destination, frames) => (.copied (.table child destination), frames)

def Pte.copyOnWrite (entry : Pte) : Pte := { entry with write := false, cow := true }

def marked (entry : Pte) : Bool := entry.user && !entry.shared && entry.write

def markCow : PageTree → PageTree → PageTree × PageTree
  | .leaf parent, .leaf child =>
    if marked parent then (.leaf parent.copyOnWrite, .leaf child.copyOnWrite)
    else (.leaf parent, .leaf child)
  | .table label parent, .table label' child =>
    (.table label fun i => (markCow (parent i) (child i)).1,
      .table label' fun i => (markCow (parent i) (child i)).2)
  | parent, child => (parent, child)

def destroyEntry : PageTree → Frames → Frames
  | .absent, frames => frames
  | .leaf entry, frames => if entry.device then frames else freeFrame frames entry.frame
  | .table label entries, frames =>
    freeFrame (tableIndices.foldl (fun frames i => destroyEntry (entries i) frames) frames) label

def vmmDestroyAddressSpace (frames : Frames) (tables : PageTree) : Frames :=
  destroyEntry tables frames

/-- The child's tables if the clone succeeds, the parent's, and the pages.  The
kernel's tables in the upper half are visited too: each takes a page and gives it
back, as they have no user entry. -/
def vmmCloneUserSpace (frames : Frames) : PageTree → Option PageTree × PageTree × Frames
  | .table label entries =>
    match allocFrame frames with
    | (none, frames) => (none, .table label entries, frames)
    | (some root, frames) =>
      let result := cloneLoop (fun i => cloneEntry (entries i)) tableIndices false
        (fun _ => .absent) frames
      let child := Tree.table root result.2.1
      match result.1, allocFrame result.2.2 with
      | true, (some page, frames) =>
        let both := markCow (.table label entries) child
        (some both.2, both.1, freeFrame frames page)
      | _, (_, _) => (none, .table label entries, vmmDestroyAddressSpace result.2.2 child)
  | tables => (none, tables, frames)

end NPKernel.Vm
