import NPKernel.AreaLists
import NPKernel.UserPages

/-!
# Faults on pages that are not there yet

`vm_handle_page_fault` makes the page of an area at the first access to it.  It compares
the access with the protection of the area, but refuses every instruction fetch, and
takes any protection at all for a permission to read.
-/

namespace NPKernel.Vm

open RadixTables

inductive Access where
  | read
  | write
  | fetch

def Access.ofErrorCode (errorCode : Word) : Access :=
  if hasBit errorCode 16 then .fetch
  else if hasBit errorCode 2 then .write
  else .read

def Vma.allows (vma : Vma) : Access → Bool
  | .read => hasBit vma.protection NPK_PROT_READ
  | .write => hasBit vma.protection NPK_PROT_WRITE
  | .fetch => hasBit vma.protection NPK_PROT_EXEC

/-- The object or file behind an area has the page: the object has a page there, or the
part of the file can be read. -/
def Vma.supplied (vma : Vma) (answers : Answers) (objects : Objects) (page : ℕ) : Bool :=
  if hasBit vma.flags NPK_MAP_SHARED_OBJECT then
    match vma.backingHandle with
    | none => false
    | some handle =>
      let frame := vfsShmPage objects handle
        ((vma.backingOffset + (page - vma.start)) / NPK_PAGE_SIZE)
      decide (page - vma.start < vma.backingSize) && decide (frame ≠ 0) &&
        decide (frame * NPK_PAGE_SIZE < 2 ^ 52)
  else
    match vma.backingHandle with
    | none => true
    | some handle => (filePage answers handle vma page).isSome

/-- A fault on a page that is not there, in an area outside the stack region and below
the break, with enough free frames for the page and its tables. -/
structure LazyFault (mem : Memory) (vma : Vma) (address : ℕ) (errorCode : Word) : Prop where
  areas : mem.layout.Ok
  root : mem.process.tables.isTable = true
  depth : mem.process.tables.HasDepth 4
  found : findVma mem.process.vmas address = some vma
  outside : ¬(mem.process.userStackLimit ≤ pageAlign address ∧
    pageAlign address < mem.process.userStackTop)
  belowBreak : hasBit vma.flags NPK_MAP_HEAP = true → address < mem.process.brkEnd
  notPresent : hasBit errorCode 1 = false
  absent : mem.process.tables.leafAt (pagePath address) = none
  memory : Tree.Supplies allocFrame 4 mem.frames

/-- An address in an area, outside the stack region. -/
structure InArea (mem : Memory) (vma : Vma) (address : ℕ) : Prop where
  areas : mem.layout.Ok
  found : findVma mem.process.vmas address = some vma
  outside : ¬(mem.process.userStackLimit ≤ pageAlign address ∧
    pageAlign address < mem.process.userStackTop)

/-! ## Making the page -/

theorem allocFrame_congr {frames frames' : Frames} (h : frames'.used = frames.used) :
    (allocFrame frames').1 = (allocFrame frames).1 ∧
      (allocFrame frames').2.used = (allocFrame frames).2.used := by
  unfold allocFrame pmmAllocPage
  rw [h]
  cases findFreePage frames.used MAX_TRACKED_PAGES with
  | none => exact ⟨rfl, h⟩
  | some page =>
    dsimp only
    split <;> exact ⟨rfl, rfl⟩

theorem supplies_congr {frames frames' : Frames} {count : ℕ} (h : frames'.used = frames.used)
    (hsupply : Tree.Supplies allocFrame count frames) :
    Tree.Supplies allocFrame count frames' := by
  induction count generalizing frames frames' with
  | zero => trivial
  | succ count ih =>
    obtain ⟨frame, next, halloc, hrest⟩ := hsupply
    have hsame := allocFrame_congr h
    rw [halloc] at hsame
    exact ⟨frame, (allocFrame frames').2, Prod.ext hsame.1 rfl, ih hsame.2 hrest⟩

section making

variable {mem : Memory} {vma : Vma} {address : ℕ} {errorCode : Word}

theorem LazyFault.inArea (h : LazyFault mem vma address errorCode) : InArea mem vma address :=
  ⟨h.areas, h.found, h.outside⟩

theorem InArea.bounds (h : InArea mem vma address) :
    vma.start ≤ pageAlign address ∧ pageAlign address < vma.stop ∧
      pageAlign address + NPK_PAGE_SIZE ≤ USER_LIMIT ∧ address < USER_LIMIT := by
  have hok := h.areas.each vma (List.mem_of_find?_eq_some h.found)
  have hfound := h.found
  unfold findVma at hfound
  have hcontains := List.find?_some hfound
  have hinside := Vma.contains_iff.1 hcontains
  have hstart := hok.start_aligned
  have hstop := hok.stop_aligned
  have hhigh := hok.high
  simp only [pageAlign, NPK_PAGE_SIZE, NPK_USER_MAX, USER_LIMIT] at hstart hstop hhigh ⊢
  omega

theorem InArea.userRange (h : InArea mem vma address) :
    vmmIsUserRange address 1 = true ∧ vmmIsUserRange (pageAlign address) NPK_PAGE_SIZE = true := by
  obtain ⟨-, -, hpage, haddress⟩ := h.bounds
  have hpos : NPK_PAGE_SIZE = 4096 := rfl
  constructor
  · unfold vmmIsUserRange
    rw [if_neg (by decide), canonical_of_lt haddress, canonical_of_lt (by omega)]
    simp only [Bool.and_true, Bool.and_eq_true, decide_eq_true_eq]
    omega
  · unfold vmmIsUserRange
    rw [if_neg (by decide), canonical_of_lt (by omega), canonical_of_lt (by omega)]
    simp only [Bool.and_true, Bool.and_eq_true, decide_eq_true_eq]
    omega

theorem InArea.stack (h : InArea mem vma address) (rsp : ℕ) (fromKernel : Bool) :
    stackPageAllowed mem.process (pageAlign address) rsp fromKernel = false := by
  have houtside := h.outside
  unfold stackPageAllowed
  split
  · rfl
  · rw [if_pos]
    simp only [Bool.or_eq_true, decide_eq_true_eq]
    omega

theorem LazyFault.mapPage (h : LazyFault mem vma address errorCode) {frames : Frames}
    (hsupply : Tree.Supplies allocFrame 3 frames) {frame : ℕ}
    (hframe : frame * NPK_PAGE_SIZE < 2 ^ 52) (flags : PageFlags) :
    ((mem.setFrames frames).mapPage (pageAlign address) frame flags).1 = true := by
  obtain ⟨-, -, hpage, haddress⟩ := h.inArea.bounds
  have haligned : pageAlign address % NPK_PAGE_SIZE = 0 := Nat.mul_mod_left _ _
  have hsame : pagePath (pageAlign address) = pagePath address := by
    apply pagePath_congr
    simp only [pageAlign, NPK_PAGE_SIZE]
    omega
  have hpos : NPK_PAGE_SIZE = 4096 := rfl
  unfold Memory.mapPage vmmMapPageRoot
  rw [canonical_of_lt (by omega)]
  simp only [haligned, ne_eq, not_true_eq_false, decide_false, Bool.not_true, Bool.or_self,
    Bool.false_eq_true, if_false]
  rw [if_neg, if_neg (by omega), hsame]
  · exact Tree.insert_succeeds allocFrame _ h.root (pagePath_ne_nil address) h.depth h.absent
      hsupply
  · simp only [Bool.and_eq_true, Bool.or_eq_true, decide_eq_true_eq, not_and, not_or]
    intro _
    omega

theorem fst_mapped (result : Bool × Memory) (refused mapped : Memory → Memory) :
    (match result with
      | (false, mem) => (false, refused mem)
      | (true, mem) => (true, mapped mem)).1 = result.1 := by
  obtain ⟨done, next⟩ := result
  cases done <;> rfl

theorem LazyFault.makePage (h : LazyFault mem vma address errorCode) (answers : Answers)
    (objects : Objects) (protection : Word) :
    (makePage answers objects mem (some vma) (pageAlign address) protection).1 =
      vma.supplied answers objects (pageAlign address) := by
  obtain ⟨hlow, hhigh, -, -⟩ := h.inArea.bounds
  obtain ⟨-, hrange⟩ := h.inArea.userRange
  obtain ⟨frame, frames, halloc, hsupply⟩ := h.memory
  have hframe : frame * NPK_PAGE_SIZE < 2 ^ 52 := by
    have hlt := (allocFrame_some halloc).2.1
    simp only [MAX_TRACKED_PAGES, NPK_PAGE_SIZE] at hlt ⊢
    omega
  unfold NPKernel.Vm.makePage Vma.supplied
  dsimp only
  by_cases hshared : hasBit vma.flags NPK_MAP_SHARED_OBJECT = true
  · rw [if_pos hshared, if_pos hshared]
    unfold mapSharedPage
    cases vma.backingHandle with
    | none => rfl
    | some handle =>
      dsimp only
      generalize vfsShmPage objects handle _ = physical
      by_cases hsize : pageAlign address - vma.start < vma.backingSize
      · rw [if_neg (by simp [hlow, hhigh, hrange, hsize])]
        by_cases hzero : physical = 0
        · simp [hzero]
        rw [if_neg hzero]
        simp only [hsize, hzero, ne_eq, not_false_eq_true, decide_true, Bool.true_and]
        by_cases hwide : physical * NPK_PAGE_SIZE < 2 ^ 52
        · have hmap := h.mapPage (supplies_congr (@retainFrame_used mem.frames physical)
            (h.memory.mono (Nat.le_succ 3))) hwide
            { pageFlagsFor vma.protection with shared := true }
          exact (fst_mapped _ _ _).trans (hmap.trans (decide_eq_true hwide).symm)
        · have hmap : ((mem.setFrames (retainFrame mem.frames physical)).mapPage
              (pageAlign address) physical
              { pageFlagsFor vma.protection with shared := true }).1 = false := by
            unfold Memory.mapPage vmmMapPageRoot
            split
            · rfl
            · split
              · rfl
              · rw [if_pos (not_lt.1 hwide)]
          exact (fst_mapped _ _ _).trans (hmap.trans (decide_eq_false hwide).symm)
      · rw [if_pos (by simp [not_lt.1 hsize])]
        simp [hsize]
  · rw [if_neg hshared, if_neg hshared]
    cases vma.backingHandle with
    | none =>
      dsimp only
      unfold mapZeroPage
      rw [hrange, halloc]
      simp only [Bool.not_true, Bool.false_eq_true, if_false]
      exact (fst_mapped _ _ _).trans (h.mapPage hsupply hframe (pageFlagsFor protection))
    | some handle =>
      dsimp only
      unfold mapFilePage
      rw [if_neg (by simp [hlow, hhigh, hrange]), halloc]
      dsimp only
      cases filePage answers handle vma (pageAlign address) with
      | none => rfl
      | some contents =>
        exact (fst_mapped _ _ _).trans (h.mapPage
          (supplies_congr (Frames.store_used frames frame contents) hsupply) hframe
          (pageFlagsFor vma.protection))

theorem LazyFault.resolved (h : LazyFault mem vma address errorCode) (answers : Answers)
    (objects : Objects) (rsp : ℕ) :
    (vmHandlePageFault answers objects mem address errorCode rsp).1 =
      match Access.ofErrorCode errorCode with
      | .fetch => false
      | .write => hasBit vma.protection NPK_PROT_WRITE &&
          vma.supplied answers objects (pageAlign address)
      | .read => hasBit vma.protection (NPK_PROT_READ ||| NPK_PROT_WRITE ||| NPK_PROT_EXEC) &&
          vma.supplied answers objects (pageAlign address) := by
  obtain ⟨haddress, hpage⟩ := h.inArea.userRange
  have hstack := h.inArea.stack rsp false
  have hheap : heapLimited mem.process (some vma) address = false := by
    have hbelow := h.belowBreak
    unfold heapLimited
    by_cases hflag : hasBit vma.flags NPK_MAP_HEAP = true
    · have hlt := hbelow hflag
      simp [hflag, hlt]
    · simp [hflag]
  have hmake := h.makePage answers objects vma.protection
  unfold vmHandlePageFault Access.ofErrorCode
  simp only [haddress, hpage, h.notPresent, h.found, hstack, hheap, Bool.not_true,
    Bool.false_eq_true, if_false, Bool.or_false, Option.isNone_some, Bool.false_and,
    Option.map_some, Option.getD_some]
  rw [← hmake]
  generalize NPKernel.Vm.makePage answers objects mem (some vma) (pageAlign address)
    vma.protection = made
  obtain ⟨done, next⟩ := made
  generalize hasBit errorCode 16 = fetch
  generalize hasBit errorCode 2 = write
  generalize hasBit vma.protection NPK_PROT_WRITE = writable
  generalize hasBit vma.protection (NPK_PROT_READ ||| NPK_PROT_WRITE ||| NPK_PROT_EXEC) = any
  cases fetch with
  | true => rfl
  | false =>
    cases write with
    | true => cases writable <;> cases done <;> rfl
    | false => cases any <;> cases done <;> rfl

end making

/-! ## Faults and protections -/

/-- When the handler's answer agrees with the protection: a fetch from an area that is
not executable, an access whose page the area's source has, or a read that nothing but
a missing page refuses. -/
def HonoursProtection (answers : Answers) (objects : Objects) (vma : Vma) (address : ℕ) :
    Access → Prop
  | .fetch => vma.allows .fetch = false
  | .write => vma.allows .write = true → vma.supplied answers objects (pageAlign address) = true
  | .read =>
    (vma.allows .read = true → vma.supplied answers objects (pageAlign address) = true) ∧
    (vma.allows .read = false → hasBit vma.protection (NPK_PROT_WRITE ||| NPK_PROT_EXEC) = true →
      vma.supplied answers objects (pageAlign address) = false)

theorem hasBit_or (flags first second : Word) :
    hasBit flags (first ||| second) = (hasBit flags first || hasBit flags second) := by
  unfold hasBit
  rw [BitVec.and_or_distrib_left, Bool.eq_iff_iff]
  simp only [bne_iff_ne, ne_eq, Bool.or_eq_true]
  show ¬(flags &&& first ||| flags &&& second = 0#64) ↔ _
  rw [BitVec.or_eq_zero_iff, not_and_or]
  rfl

theorem lazy_fault_honours_protection_iff (answers : Answers) (objects : Objects) (mem : Memory)
    (vma : Vma) (address : ℕ) (errorCode : Word) (rsp : ℕ)
    (h : LazyFault mem vma address errorCode) :
    ((vmHandlePageFault answers objects mem address errorCode rsp).1 = true ↔
        vma.allows (Access.ofErrorCode errorCode) = true) ↔
      HonoursProtection answers objects vma address (Access.ofErrorCode errorCode) := by
  rw [h.resolved]
  cases Access.ofErrorCode errorCode with
  | fetch => simp [HonoursProtection]
  | write =>
    simp only [HonoursProtection, Vma.allows]
    cases hasBit vma.protection NPK_PROT_WRITE <;>
      cases vma.supplied answers objects (pageAlign address) <;> simp
  | read =>
    simp only [HonoursProtection, Vma.allows]
    rw [BitVec.or_assoc, hasBit_or]
    cases hasBit vma.protection NPK_PROT_READ <;>
      cases hasBit vma.protection (NPK_PROT_WRITE ||| NPK_PROT_EXEC) <;>
      cases vma.supplied answers objects (pageAlign address) <;> simp

/-! ## A fetch from a new mapping -/

def sampleText : Vma :=
  Vma.plain VM_USER_MMAP_BASE NPK_PAGE_SIZE (NPK_PROT_READ ||| NPK_PROT_EXEC)
    (NPK_MAP_PRIVATE ||| NPK_MAP_ANONYMOUS)

def sampleFaulting : Memory :=
  { frames := sampleBoot.frames
    process := { emptyProcess 2 (.table 1 fun _ => .absent) with vmas := [sampleText] } }

theorem sampleFaulting_fault (errorCode : Word) (h : hasBit errorCode 1 = false) :
    LazyFault sampleFaulting sampleText VM_USER_MMAP_BASE errorCode := by
  constructor
  · constructor
    · intro vma hvma
      rw [List.mem_singleton.1 hvma]
      constructor <;> decide
    · exact List.pairwise_singleton _ _
    · rfl
  · rfl
  · intro i
    trivial
  · rfl
  · decide
  · intro hheap
    exact absurd hheap (by decide)
  · exact h
  · rfl
  · decide +kernel

theorem fetch_from_new_mapping_refused :
    ¬∀ (answers : Answers) (objects : Objects) (mem : Memory) (vma : Vma) (address : ℕ)
      (errorCode : Word) (rsp : ℕ), LazyFault mem vma address errorCode →
        ((vmHandlePageFault answers objects mem address errorCode rsp).1 = true ↔
          vma.allows (Access.ofErrorCode errorCode) = true) := by
  intro hall
  have hfault := sampleFaulting_fault 20 (by decide)
  have hresolved := (hall sampleAnswers (fun _ => none) sampleFaulting sampleText
    VM_USER_MMAP_BASE 20 0 hfault).2 (by decide)
  rw [hfault.resolved] at hresolved
  exact absurd hresolved (by decide)

theorem lazy_fault_honours_protection_iff_sample :
    LazyFault sampleFaulting sampleText VM_USER_MMAP_BASE 4 ∧
      (vmHandlePageFault sampleAnswers (fun _ => none) sampleFaulting VM_USER_MMAP_BASE 4 0).1 =
        true := by
  have hfault := sampleFaulting_fault 4 (by decide)
  refine ⟨hfault, ?_⟩
  apply ((lazy_fault_honours_protection_iff sampleAnswers (fun _ => none) sampleFaulting sampleText
    VM_USER_MMAP_BASE 4 0 hfault).2 ?_).2 (by decide)
  have hread : Access.ofErrorCode 4 = .read := rfl
  rw [hread]
  exact ⟨fun _ => rfl, fun hallowed => absurd hallowed (by decide)⟩

end NPKernel.Vm
