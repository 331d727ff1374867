import NPKernel.LazyFaults

/-!
# Writes by the kernel and by the user

Whether a page may be written is decided twice: `vm_ensure_user_page` decides before the
kernel writes, and `vm_handle_page_fault` when a write of the user has faulted.  Only the
second resolves copy-on-write.
-/

namespace NPKernel.Vm

open RadixTables

def Memory.Writable (mem : Memory) (address : ℕ) : Prop :=
  vmmLookupRoot mem.process.tables address { user := true, write := true } ≠ 0

/-- The error code of a write in user mode: the write and user bits, and the present bit. -/
def Memory.writeFault (mem : Memory) (address : ℕ) : Word :=
  if (mem.process.tables.leafAt (pagePath address)).isSome then 7 else 6

/-- A write in user mode goes through at once, or after its fault. -/
def UserWrites (answers : Answers) (objects : Objects) (mem : Memory) (address rsp : ℕ) : Prop :=
  mem.Writable address ∨
    (vmHandlePageFault answers objects mem address (mem.writeFault address) rsp).1 = true

/-- The page is writable, or it is not one that only the handler makes writable. -/
def NotCopyOnWrite (mem : Memory) (address : ℕ) : Prop :=
  mem.Writable address ∨ ∀ entry, mem.process.tables.leafAt (pagePath address) = some entry →
    entry.user = true → entry.cow = true → frameRefs mem.frames entry.frame = 0

section access

variable {answers : Answers} {objects : Objects} {mem next : Memory} {vma : Vma}
  {address page rsp : ℕ}

theorem makePage_made
    (h : makePage answers objects mem (some vma) page vma.protection = (true, next)) :
    mem.process.tables.leafAt (pagePath page) = none ∧ ∃ entry : Pte, entry.frame ≠ 0 ∧
      entry.user = true ∧ entry.write = hasBit vma.protection NPK_PROT_WRITE ∧
      next.process.tables.leafAt (pagePath page) = some entry := by
  have hmapped : ∀ {frames : Frames} {frame : ℕ} {flags : PageFlags} {after : Memory},
      (mem.setFrames frames).mapPage page frame flags = (true, after) → frame ≠ 0 →
      flags.user = true → flags.write = hasBit vma.protection NPK_PROT_WRITE →
      mem.process.tables.leafAt (pagePath page) = none ∧ ∃ entry : Pte, entry.frame ≠ 0 ∧
        entry.user = true ∧ entry.write = hasBit vma.protection NPK_PROT_WRITE ∧
        after.process.tables.leafAt (pagePath page) = some entry := by
    intro frames frame flags after hmap hframe huser hwrite
    have hresult := Memory.mapPage_mapped hmap
    refine ⟨hresult.absent, leafEntry frame flags, hframe, huser, hwrite, ?_⟩
    rw [hresult.leafAt, if_pos rfl]
  unfold makePage at h
  dsimp only at h
  split at h
  · revert h
    fun_cases mapSharedPage objects mem vma page with
    | case5 _ _ _ _ _ hframe _ hmap =>
      intro h
      cases h
      exact hmapped hmap hframe rfl rfl
    | _ => exact nofun
  · split at h
    · revert h
      fun_cases mapFilePage answers mem _ vma page with
      | case5 _ _ _ halloc _ _ _ hmap =>
        intro h
        cases h
        exact hmapped hmap (allocFrame_some halloc).1 rfl rfl
      | _ => exact nofun
    · revert h
      fun_cases mapZeroPage mem page vma.protection with
      | case4 _ _ _ halloc _ hmap =>
        intro h
        cases h
        have hresult := hmapped hmap (allocFrame_some halloc).1 rfl rfl
        exact hresult
      | _ => exact nofun

def makeWritable (answers : Answers) (objects : Objects) (mem : Memory) (vma : Vma)
    (address : ℕ) : Bool × Memory :=
  if heapLimited mem.process (some vma) address ∨ hasBit vma.protection NPK_PROT_WRITE = false then
    (false, mem)
  else makePage answers objects mem (some vma) (pageAlign address) vma.protection

theorem InArea.makeWritable_eq (h : InArea mem vma address) (hnot : ¬mem.Writable address) :
    vmEnsureUserPage answers objects mem address true =
        makeWritable answers objects mem vma address ∧
      vmHandlePageFault answers objects mem address 6 rsp =
        makeWritable answers objects mem vma address := by
  obtain ⟨haddress, hpage⟩ := h.userRange
  have hcode : hasBit 6#64 1#64 = false ∧ hasBit 6#64 2#64 = true ∧ hasBit 6#64 16#64 = false := by
    decide
  have hlookup : vmmLookupRoot mem.process.tables address { user := true, write := true } = 0 :=
    not_not.1 hnot
  constructor
  · simp only [vmEnsureUserPage, makeWritable, haddress, h.found, h.stack, hlookup, ite_or,
      Option.map_some, Option.getD_some, Bool.not_true, Bool.false_eq_true, if_false]
    generalize makePage answers objects mem (some vma) (pageAlign address) vma.protection = made
    obtain ⟨done, next⟩ := made
    cases done <;> simp [growStack]
  · simp only [vmHandlePageFault, makeWritable, haddress, hpage, h.found, h.stack, ite_or,
      Option.map_some, Option.getD_some, Bool.not_true, Bool.false_eq_true, if_false]
    generalize makePage answers objects mem (some vma) (pageAlign address) vma.protection = made
    obtain ⟨done, next⟩ := made
    cases done <;> simp [growStack, hcode]

theorem InArea.makeWritable_made (h : InArea mem vma address)
    (hmade : makeWritable answers objects mem vma address = (true, next)) :
    mem.process.tables.leafAt (pagePath address) = none ∧ next.Writable address := by
  have hpath : pagePath (pageAlign address) = pagePath address := by
    apply pagePath_congr
    simp only [pageAlign, NPK_PAGE_SIZE]
    omega
  unfold makeWritable at hmade
  split at hmade
  · cases hmade
  next hallowed =>
  obtain ⟨habsent, entry, hframe, huser, hwrite, hentry⟩ := makePage_made hmade
  rw [hpath] at habsent hentry
  refine ⟨habsent, ?_⟩
  have hprotection : hasBit vma.protection NPK_PROT_WRITE = true := by
    simpa using (not_or.1 hallowed).2
  have hpos : 0 < entry.frame * NPK_PAGE_SIZE := Nat.mul_pos (Nat.pos_of_ne_zero hframe) (by decide)
  simp [Memory.Writable, vmmLookupRoot, canonical_of_lt h.bounds.2.2.2, hentry, huser, hwrite,
    hprotection, hframe, NPK_PAGE_SIZE]

theorem vmmResolveCowFault_iff (hlimit : address < USER_LIMIT)
    (hmemory : Tree.Supplies allocFrame 1 mem.frames) {entry : Pte}
    (hentry : mem.process.tables.leafAt (pagePath address) = some entry) :
    (vmmResolveCowFault mem.frames mem.process.tables address).1 = true ↔
      entry.user = true ∧ entry.cow = true ∧ frameRefs mem.frames entry.frame ≠ 0 := by
  obtain ⟨frame, frames, halloc, -⟩ := hmemory
  simp only [vmmResolveCowFault, canonical_of_lt hlimit, hentry, halloc, Bool.not_true,
    Bool.false_eq_true, if_false]
  by_cases hflags : entry.user = true ∧ entry.cow = true
  · rw [if_neg (by simp [hflags])]
    by_cases hrefs : frameRefs mem.frames entry.frame = 0
    · simp [hrefs]
    · rw [if_neg hrefs]
      split <;> simp [hflags, hrefs]
  · rw [if_pos (by simpa [Classical.or_iff_not_imp_left] using hflags)]
    simp only [Bool.false_eq_true, false_iff]
    tauto

end access

/-- With enough free memory, the kernel may write to an address of an area exactly if the
user may, and the page is writable then, provided that it is not a copy-on-write page. -/
theorem ensure_agrees_with_user_iff (answers : Answers) (objects : Objects) (mem : Memory)
    (vma : Vma) (address rsp : ℕ) (h : InArea mem vma address)
    (hmemory : Tree.Supplies allocFrame 4 mem.frames) :
    (((vmEnsureUserPage answers objects mem address true).1 = true ↔
        UserWrites answers objects mem address rsp) ∧
      ((vmEnsureUserPage answers objects mem address true).1 = true →
        (vmEnsureUserPage answers objects mem address true).2.Writable address)) ↔
      NotCopyOnWrite mem address := by
  have hlimit := h.bounds.2.2.2
  by_cases hwritable : mem.Writable address
  · have hensure : vmEnsureUserPage answers objects mem address true = (true, mem) := by
      simp only [vmEnsureUserPage, h.userRange.1, Bool.not_true, Bool.false_eq_true, if_false]
      exact if_pos hwritable
    rw [hensure]
    simp [UserWrites, NotCopyOnWrite, hwritable]
  · obtain ⟨hensure, hfault⟩ :=
      @InArea.makeWritable_eq answers objects mem vma address rsp h hwritable
    have hafter : (vmEnsureUserPage answers objects mem address true).1 = true →
        mem.process.tables.leafAt (pagePath address) = none ∧
          (vmEnsureUserPage answers objects mem address true).2.Writable address := by
      intro hdone
      rw [hensure] at hdone ⊢
      exact h.makeWritable_made (Prod.ext hdone rfl)
    rw [and_iff_left fun hdone => (hafter hdone).2]
    unfold UserWrites NotCopyOnWrite Memory.writeFault
    cases hentry : mem.process.tables.leafAt (pagePath address) with
    | none =>
      have hsame := congrArg Prod.fst (hensure.trans hfault.symm)
      simp [hwritable, hsame]
    | some entry =>
      have hrefused : (vmEnsureUserPage answers objects mem address true).1 = false := by
        rw [Bool.eq_false_iff]
        intro hdone
        rw [hentry] at hafter
        cases (hafter hdone).1
      have hcode : hasBit 7#64 1#64 = true ∧ hasBit 7#64 2#64 = true := by decide
      have hresolve := vmmResolveCowFault_iff hlimit (hmemory.mono (by decide)) hentry
      simp [hwritable, hrefused, vmHandlePageFault, h.userRange.1, hcode, hresolve]

/-! ## After a fork -/

def sampleArea : Vma :=
  Vma.plain VM_USER_MMAP_BASE NPK_PAGE_SIZE (NPK_PROT_READ ||| NPK_PROT_WRITE)
    (NPK_MAP_PRIVATE ||| NPK_MAP_ANONYMOUS)

/-- A process with one page of private memory. -/
def sampleOwner (frames : Frames) (tables : PageTree) : Memory :=
  { frames := frames, process := { emptyProcess 2 tables with vmas := [sampleArea] } }

theorem sampleOwner_inArea (frames : Frames) (tables : PageTree) :
    InArea (sampleOwner frames tables) sampleArea VM_USER_MMAP_BASE := by
  refine ⟨⟨?_, List.pairwise_singleton _ _, rfl⟩, rfl, ?_⟩
  · intro vma hvma
    rw [List.mem_singleton.1 hvma]
    constructor <;> decide
  · rintro ⟨-, hbelow⟩
    exact absurd hbelow (Nat.not_lt_zero _)

/-- The page is there, and a fork has made it copy-on-write. -/
def sampleForked : Memory :=
  let entry := (leafEntry 4096 { user := true, write := true, nx := true }).copyOnWrite
  let below := fun (i : Fin 512) (label : ℕ) (entry : PageTree) =>
    Tree.table label fun j => if j = i then entry else .absent
  sampleOwner
    { sampleBoot.frames with
      used := Function.update sampleBoot.frames.used 4096 true, refs := fun _ => 2 }
    (below 0 1 (below 64 2 (below 0 3 (below 0 4 (.leaf entry)))))

theorem kernel_refused_after_fork :
    ∃ vma, InArea sampleForked vma VM_USER_MMAP_BASE ∧
      Tree.Supplies allocFrame 4 sampleForked.frames ∧
      (vmEnsureUserPage sampleAnswers (fun _ => none) sampleForked VM_USER_MMAP_BASE true).1 =
        false ∧
      UserWrites sampleAnswers (fun _ => none) sampleForked VM_USER_MMAP_BASE 0 := by
  refine ⟨_, sampleOwner_inArea _ _, by decide +kernel, ?_, ?_⟩
  · decide +kernel
  · right
    decide +kernel

theorem ensure_agrees_with_user_iff_sample :
    let mem := sampleOwner sampleBoot.frames (.table 1 fun _ => .absent)
    UserWrites sampleAnswers (fun _ => none) mem VM_USER_MMAP_BASE 0 ∧
      (vmEnsureUserPage sampleAnswers (fun _ => none) mem VM_USER_MMAP_BASE true).2.Writable
        VM_USER_MMAP_BASE := by
  intro mem
  have hensured : (vmEnsureUserPage sampleAnswers (fun _ => none) mem VM_USER_MMAP_BASE true).1 =
      true := by
    decide +kernel
  obtain ⟨hagree, hwritable⟩ := (ensure_agrees_with_user_iff sampleAnswers (fun _ => none) mem
    sampleArea VM_USER_MMAP_BASE 0 (sampleOwner_inArea _ _) (by decide +kernel)).2 (.inr nofun)
  exact ⟨hagree.1 hensured, hwritable hensured⟩

end NPKernel.Vm
