import NPKernel.VirtualMemory

/-!
# What a call can do to the pages of a process

A fault, a copy or a protection change works on the page tables of one process by
a few kinds of steps.  New private pages come from the allocator, shared ones from
a shared-memory object, device pages from the framebuffer; an entry can be resolved
after copy-on-write, protected or removed; and bytes are stored only through
writable entries.
-/

namespace NPKernel.Vm

open RadixTables Relation

/-! ## Steps -/

structure Sources where
  objects : Objects
  display : ℕ → Prop

/-- One step of a call.  `allowed` are the flags that new pages may have. -/
inductive PageChange (sources : Sources) (allowed : ℕ → PageFlags → Prop) (mem : Memory) :
    Memory → Prop
  | exhausted (frames : Frames) (halloc : allocFrame mem.frames = (none, frames)) :
      PageChange sources allowed mem (mem.setFrames frames)
  | discarded (frame : ℕ) (frames : Frames)
      (halloc : allocFrame mem.frames = (some frame, frames)) :
      PageChange sources allowed mem (mem.setFrames (freeFrame frames frame))
  | refused (page frame : ℕ) (frames : Frames) (initial : ℕ → BitVec 8) (flags : PageFlags)
      (next : Memory) (halloc : allocFrame mem.frames = (some frame, frames))
      (hmap : (mem.setFrames (frames.store frame initial)).mapPage page frame flags =
        (false, next)) :
      PageChange sources allowed mem (next.setFrames (freeFrame next.frames frame))
  | created (page frame : ℕ) (frames : Frames) (initial contents : ℕ → BitVec 8)
      (flags : PageFlags) (next : Memory)
      (halloc : allocFrame mem.frames = (some frame, frames))
      (hmap : (mem.setFrames (frames.store frame initial)).mapPage page frame flags = (true, next))
      (hallowed : allowed page flags) (hshared : flags.shared = false)
      (hdevice : flags.device = false) :
      PageChange sources allowed mem (next.setFrames (next.frames.store frame contents))
  | shareRefused (page frame : ℕ) (flags : PageFlags) (handle : ℕ) (pages : List ℕ)
      (next : Memory) (hobject : sources.objects handle = some pages) (hpage : frame ∈ pages)
      (hmap : (mem.setFrames (retainFrame mem.frames frame)).mapPage page frame flags =
        (false, next)) :
      PageChange sources allowed mem (next.setFrames (freeFrame next.frames frame))
  | shared (page frame : ℕ) (flags : PageFlags) (handle : ℕ) (pages : List ℕ) (next : Memory)
      (hobject : sources.objects handle = some pages) (hpage : frame ∈ pages)
      (hmap : (mem.setFrames (retainFrame mem.frames frame)).mapPage page frame flags =
        (true, next))
      (hallowed : allowed page flags) (hshared : flags.shared = true)
      (hdevice : flags.device = false) :
      PageChange sources allowed mem next
  | device (page frame : ℕ) (flags : PageFlags) (done : Bool) (next : Memory)
      (hdisplay : sources.display frame)
      (hmap : mem.mapPage page frame flags = (done, next))
      (hallowed : allowed page flags) (hdevice : flags.device = true) :
      PageChange sources allowed mem next
  | resolved (address : ℕ) (resolved : Bool) (frames : Frames) (tables : PageTree)
      (hresolve : vmmResolveCowFault mem.frames mem.process.tables address =
        (resolved, frames, tables)) :
      PageChange sources allowed mem
        { frames := frames, process := { mem.process with tables := tables } }
  | stored (address physical : ℕ) (bytes : List (BitVec 8))
      (hlookup : vmmLookupRoot mem.process.tables address { user := true, write := true } =
        physical) (hphysical : physical ≠ 0) :
      PageChange sources allowed mem (mem.setFrames (mem.frames.writeBytes physical bytes))
  | grown (bottom : ℕ) :
      PageChange sources allowed mem
        { mem with process := { mem.process with userStackBottom := bottom } }
  | unmapped (page : ℕ) : PageChange sources allowed mem (unmapPage mem page)
  | reprotected (page : ℕ) (flags : PageFlags) (done : Bool) (tables : PageTree)
      (hprotect : vmmProtectPageRoot mem.process.tables page flags = (done, tables)) :
      PageChange sources allowed mem (mem.setTables tables)

abbrev PageChanges (sources : Sources) (allowed : ℕ → PageFlags → Prop) : Memory → Memory → Prop :=
  ReflTransGen (PageChange sources allowed)

section mapPage

variable {mem next : Memory} {page frame : ℕ} {flags : PageFlags} {done : Bool}
  (h : mem.mapPage page frame flags = (done, next))

include h

theorem Memory.mapPage_process :
    ∃ tables, next.process = { mem.process with tables := tables } := by
  unfold Memory.mapPage at h
  cases h
  exact ⟨_, rfl⟩

theorem Memory.mapPage_vmas : next.process.vmas = mem.process.vmas := by
  obtain ⟨tables, hprocess⟩ := mapPage_process h
  rw [hprocess]

theorem Memory.mapPage_bytes : next.frames.bytes = mem.frames.bytes := by
  unfold Memory.mapPage at h
  cases h
  exact vmmMapPageRoot_bytes _ _ _ _ _

end mapPage

section steps

variable {sources : Sources} {allowed : ℕ → PageFlags → Prop} {mem next : Memory}

theorem PageChange.process (h : PageChange sources allowed mem next) :
    ∃ tables bottom, next.process =
      { mem.process with tables := tables, userStackBottom := bottom } := by
  have hmapped : ∀ {mem' next' : Memory} {page frame : ℕ} {flags : PageFlags} {done : Bool},
      mem'.mapPage page frame flags = (done, next') → mem'.process = mem.process →
      ∃ tables bottom, next'.process =
        { mem.process with tables := tables, userStackBottom := bottom } := by
    intro mem' next' page frame flags done hmap hprocess
    obtain ⟨tables, hnext⟩ := Memory.mapPage_process hmap
    exact ⟨tables, mem.process.userStackBottom, by rw [hnext, hprocess]⟩
  cases h with
  | exhausted | discarded => exact ⟨_, _, rfl⟩
  | refused page frame frames initial flags next halloc hmap => exact (hmapped hmap rfl :)
  | created page frame frames initial contents flags next halloc hmap => exact (hmapped hmap rfl :)
  | shareRefused page frame flags handle pages next hobject hpage hmap => exact (hmapped hmap rfl :)
  | shared page frame flags handle pages next hobject hpage hmap => exact (hmapped hmap rfl :)
  | device page frame flags done next hdisplay hmap => exact (hmapped hmap rfl :)
  | resolved address resolved frames tables => exact ⟨tables, _, rfl⟩
  | stored => exact ⟨_, _, rfl⟩
  | grown bottom => exact ⟨_, bottom, rfl⟩
  | unmapped => exact ⟨_, _, rfl⟩
  | reprotected page flags done tables => exact ⟨tables, _, rfl⟩

theorem PageChanges.process (h : PageChanges sources allowed mem next) :
    ∃ tables bottom, next.process =
      { mem.process with tables := tables, userStackBottom := bottom } := by
  induction h with
  | refl => exact ⟨_, _, rfl⟩
  | tail _ hchange ih =>
    obtain ⟨tables, bottom, hnext⟩ := hchange.process
    obtain ⟨tables', bottom', hmiddle⟩ := ih
    exact ⟨tables, bottom, by rw [hnext, hmiddle]⟩

end steps

/-! ## Making pages -/

/-- The flags that a page made for a process may have: those of an area around it, or
those of a stack page. -/
def UserProcess.Allows (process : UserProcess) (page : ℕ) (flags : PageFlags) : Prop :=
  flags.user = true ∧
    ((∃ address vma, pageAlign address = page ∧ findVma process.vmas address = some vma ∧
        flags.write = hasBit vma.protection NPK_PROT_WRITE ∧
        flags.nx = !hasBit vma.protection NPK_PROT_EXEC) ∨
      (process.userStackLimit ≤ page ∧ page < process.userStackTop ∧ flags.nx = true))

section making

variable {sources : Sources} {allowed : ℕ → PageFlags → Prop} {mem : Memory}

variable {page : ℕ} {protection : Word} {answers : Answers} {vma : Vma}

theorem mapZeroPage_changes (hallowed : allowed page (pageFlagsFor protection)) :
    PageChanges sources allowed mem (mapZeroPage mem page protection).2 := by
  unfold mapZeroPage
  split
  · exact .refl
  split
  next halloc => exact .single (.exhausted _ halloc)
  next frame frames halloc =>
  split
  next next hmap =>
    rw [← frames.store_self frame] at hmap
    exact .single (.refused page frame frames _ _ next halloc hmap)
  next next hmap =>
    rw [← frames.store_self frame] at hmap
    exact .single (.created page frame frames _ _ _ next halloc hmap hallowed rfl rfl)

theorem mapFilePage_changes {handle : ℕ} (hallowed : allowed page (pageFlagsFor vma.protection)) :
    PageChanges sources allowed mem (mapFilePage answers mem handle vma page).2 := by
  unfold mapFilePage
  split
  · exact .refl
  split
  next halloc => exact .single (.exhausted _ halloc)
  next frame frames halloc =>
  split
  · exact .single (.discarded frame frames halloc)
  next contents _ =>
  split
  next next hmap => exact .single (.refused page frame frames _ _ next halloc hmap)
  next next hmap =>
  have hsame : next.frames.store frame contents = next.frames := by
    have hbytes : next.frames.bytes frame = contents := by
      rw [Memory.mapPage_bytes hmap]
      exact Function.update_self ..
    rw [← hbytes, Frames.store_self]
  have hchange : PageChange sources allowed mem
      (next.setFrames (next.frames.store frame contents)) :=
    .created page frame frames _ _ _ next halloc hmap hallowed rfl rfl
  rw [hsame] at hchange
  exact .single hchange

theorem mapSharedPage_changes
    (hallowed : allowed page { pageFlagsFor vma.protection with shared := true }) :
    PageChanges sources allowed mem (mapSharedPage sources.objects mem vma page).2 := by
  unfold mapSharedPage
  dsimp only
  split
  · exact .refl
  next handle _ =>
  split
  · exact .refl
  split
  · exact .refl
  next hne =>
  obtain ⟨pages, hobject, hpage⟩ : ∃ pages, sources.objects handle = some pages ∧
      vfsShmPage sources.objects handle
        ((vma.backingOffset + (page - vma.start)) / NPK_PAGE_SIZE) ∈ pages := by
    unfold vfsShmPage at hne ⊢
    split at hne
    · exact absurd rfl hne
    next pages hobject =>
    refine ⟨pages, hobject, ?_⟩
    rw [List.getD_eq_getElem?_getD] at hne ⊢
    cases hentry : pages[(vma.backingOffset + (page - vma.start)) / NPK_PAGE_SIZE]? with
    | none => simp [hentry] at hne
    | some frame => exact List.mem_of_getElem? hentry
  split
  next next hmap =>
    exact .single (.shareRefused page _ _ handle pages next hobject hpage hmap)
  next next hmap =>
    exact .single (.shared page _ _ handle pages next hobject hpage hmap hallowed rfl rfl)

theorem makePage_changes {vma : Option Vma} (hzero : allowed page (pageFlagsFor protection))
    (harea : ∀ area, vma = some area → ∀ shared,
      allowed page { pageFlagsFor area.protection with shared := shared }) :
    PageChanges sources allowed mem
      (makePage answers sources.objects mem vma page protection).2 := by
  unfold makePage
  split
  · exact mapZeroPage_changes hzero
  next area =>
  split
  · exact mapSharedPage_changes (harea area rfl true)
  · split
    · exact mapFilePage_changes (harea area rfl false)
    · exact mapZeroPage_changes hzero

theorem growStack_changes (stack : Bool) (page : ℕ) :
    PageChanges sources allowed mem (growStack mem stack page) := by
  unfold growStack
  split
  · exact .single (.grown page)
  · exact .refl

theorem makePage_grow_changes {address rsp : ℕ} {fromKernel made : Bool} {next : Memory}
    (hfound : ¬((findVma mem.process.vmas address).isNone &&
      !stackPageAllowed mem.process (pageAlign address) rsp fromKernel) = true)
    (hprotection : protection =
      if stackPageAllowed mem.process (pageAlign address) rsp fromKernel = true then
        NPK_PROT_READ ||| NPK_PROT_WRITE
      else ((findVma mem.process.vmas address).map Vma.protection).getD 0)
    (hmake : makePage answers sources.objects mem (findVma mem.process.vmas address)
      (pageAlign address) protection = (made, next)) :
    PageChanges sources mem.process.Allows mem next ∧
      PageChanges sources mem.process.Allows mem
        (growStack next (stackPageAllowed mem.process (pageAlign address) rsp fromKernel)
          (pageAlign address)) := by
  have hchanges : PageChanges sources mem.process.Allows mem
      (makePage answers sources.objects mem (findVma mem.process.vmas address)
        (pageAlign address) protection).2 := by
    apply makePage_changes
    · refine ⟨rfl, ?_⟩
      by_cases hstack : stackPageAllowed mem.process (pageAlign address) rsp fromKernel = true
      · right
        rw [hprotection, if_pos hstack]
        unfold stackPageAllowed at hstack
        split_ifs at hstack with htop hlimit
        all_goals
          simp only [Bool.or_eq_true, decide_eq_true_eq, not_or, not_lt, not_le] at hlimit
          exact ⟨hlimit.1, hlimit.2, rfl⟩
      · left
        rw [hprotection, if_neg hstack]
        cases hvma : findVma mem.process.vmas address with
        | none => simp [hvma, hstack] at hfound
        | some vma => exact ⟨address, vma, rfl, hvma, rfl, rfl⟩
    · intro area hvma shared
      exact ⟨rfl, Or.inl ⟨address, area, rfl, hvma, rfl, rfl⟩⟩
  rw [hmake] at hchanges
  exact ⟨hchanges, hchanges.trans (growStack_changes _ _)⟩

theorem vmEnsureUserPage_changes (answers : Answers) (address : ℕ) (write : Bool) :
    PageChanges sources mem.process.Allows mem
      (vmEnsureUserPage answers sources.objects mem address write).2 := by
  fun_cases vmEnsureUserPage answers sources.objects mem address write with
  | case7 _ _ _ _ _ _ _ hfound _ _ _ hmake => exact (makePage_grow_changes hfound rfl hmake).1
  | case8 _ _ _ _ _ _ _ hfound _ _ _ hmake => exact (makePage_grow_changes hfound rfl hmake).2
  | _ => exact .refl

theorem vmHandlePageFault_changes (answers : Answers) (address : ℕ) (errorCode : Word) (rsp : ℕ) :
    PageChanges sources mem.process.Allows mem
      (vmHandlePageFault answers sources.objects mem address errorCode rsp).2 := by
  fun_cases vmHandlePageFault answers sources.objects mem address errorCode rsp with
  | case3 => exact .single (.resolved address _ _ _ rfl)
  | case9 _ _ _ _ _ _ _ _ _ hfound _ _ _ hmake => exact (makePage_grow_changes hfound rfl hmake).1
  | case10 _ _ _ _ _ _ _ _ _ hfound _ _ _ hmake => exact (makePage_grow_changes hfound rfl hmake).2
  | _ => exact .refl

end making

/-! ## Copies -/

section copies

variable {sources : Sources} {next : Memory}

theorem PageChanges.allows {allowed : ℕ → PageFlags → Prop} {mem : Memory}
    (h : PageChanges sources allowed mem next) : next.process.Allows = mem.process.Allows := by
  obtain ⟨tables, bottom, hprocess⟩ := h.process
  rw [hprocess]
  rfl

theorem PageChanges.andThen {mem last : Memory}
    (h : PageChanges sources mem.process.Allows mem next)
    (hrest : PageChanges sources next.process.Allows next last) :
    PageChanges sources mem.process.Allows mem last := by
  rw [h.allows] at hrest
  exact h.trans hrest

variable (mem : Memory) (answers : Answers)

theorem prepareWrite_changes (resolve : Bool) (address : ℕ) :
    PageChanges sources mem.process.Allows mem
      (prepareWrite answers sources.objects resolve mem address) := by
  have hresolved : PageChanges sources mem.process.Allows mem
      { frames := (vmmResolveCowFault mem.frames mem.process.tables address).2.1
        process := { mem.process with
          tables := (vmmResolveCowFault mem.frames mem.process.tables address).2.2 } } :=
    .single (.resolved address _ _ _ rfl)
  unfold prepareWrite
  dsimp only
  split_ifs
  · exact hresolved
  · exact hresolved.andThen (vmEnsureUserPage_changes answers address true)
  · exact .refl
  · exact vmEnsureUserPage_changes answers address true

theorem writePage_changes (resolve : Bool) (address : ℕ) (bytes : List (BitVec 8)) :
    PageChanges sources mem.process.Allows mem
      (writePage answers sources.objects resolve mem address bytes).2 := by
  have hprepared : PageChanges sources mem.process.Allows mem
      (prepareWrite answers sources.objects resolve mem address) :=
    prepareWrite_changes mem answers resolve address
  unfold writePage
  dsimp only
  split
  · exact hprepared
  next hne => exact hprepared.tail (.stored address _ bytes rfl hne)

theorem writeLoop_changes (resolve : Bool) (fuel address : ℕ) (bytes : List (BitVec 8)) :
    PageChanges sources mem.process.Allows mem
      (writeLoop answers sources.objects resolve fuel mem address bytes).2 := by
  induction fuel generalizing mem address bytes with
  | zero => exact .refl
  | succ fuel ih =>
    have hpage : PageChanges sources mem.process.Allows mem
        (writePage answers sources.objects resolve mem address
          (bytes.take (min bytes.length (NPK_PAGE_SIZE - address % NPK_PAGE_SIZE)))).2 :=
      writePage_changes mem answers resolve address _
    rw [writeLoop]
    dsimp only
    split
    · exact .refl
    split
    next heq => rwa [heq] at hpage
    next heq =>
      rw [heq] at hpage
      exact hpage.andThen (ih _ _ _)

theorem kernelWrite_changes (resolve : Bool) (address : ℕ) (bytes : List (BitVec 8)) :
    PageChanges sources mem.process.Allows mem
      (kernelWrite answers sources.objects resolve mem address bytes).2 := by
  unfold kernelWrite
  split
  · exact .refl
  · exact writeLoop_changes mem answers resolve _ address bytes

theorem copyinLoop_changes (fuel address length : ℕ) :
    PageChanges sources mem.process.Allows mem
      (copyinLoop answers sources.objects fuel mem address length).2 := by
  induction fuel generalizing mem address length with
  | zero => exact .refl
  | succ fuel ih =>
    rw [copyinLoop]
    dsimp only
    have hready : PageChanges sources mem.process.Allows mem
        (if vmmLookupRoot mem.process.tables address { user := true } = 0 then
          (vmEnsureUserPage answers sources.objects mem address false).2 else mem) := by
      split
      · exact vmEnsureUserPage_changes answers address false
      · exact .refl
    generalize (if vmmLookupRoot mem.process.tables address { user := true } = 0 then
      (vmEnsureUserPage answers sources.objects mem address false).2 else mem) = ready
      at hready ⊢
    have hrest := ih ready (address + min length (NPK_PAGE_SIZE - address % NPK_PAGE_SIZE))
      (length - min length (NPK_PAGE_SIZE - address % NPK_PAGE_SIZE))
    split
    · exact .refl
    split
    · exact hready
    split
    next heq =>
      rw [heq] at hrest
      exact hready.andThen hrest
    next heq =>
      rw [heq] at hrest
      exact hready.andThen hrest

theorem vmmCopyin_changes (address length : ℕ) :
    PageChanges sources mem.process.Allows mem
      (vmmCopyin answers sources.objects mem address length).2 := by
  unfold vmmCopyin
  split
  · exact .refl
  · exact copyinLoop_changes mem answers length address length

end copies

end NPKernel.Vm
