import NPKernel.MappingOrigins
import NPKernel.UserPages

/-!
# Where a region is mapped, and how it is unmapped

`vm_map_anonymous` looks for room from the cursor of the process on, which every mapping
moves behind itself, and `vm_unmap` takes a range away only if one area has all of it.  So
room below the cursor is not found, and a region that `vm_protect` has split in two cannot
be unmapped as it was mapped.
-/

namespace NPKernel.Vm

open IntervalLists GuardedRuns

/-! ## The search for a gap -/

def FreeGap (vmas : List Vma) (length start : ℕ) : Prop :=
  VM_USER_MMAP_BASE ≤ start ∧ start + length ≤ VM_USER_MMAP_LIMIT ∧
    ∀ vma ∈ vmas, vma.stop ≤ start ∨ start + length ≤ vma.start

section gaps

variable {vmas : List Vma} {length size start found fuel : ℕ}

theorem freeGap_iff (hbase : VM_USER_MMAP_BASE ≤ start) :
    (addOverflow start size || decide (VM_USER_MMAP_LIMIT < start + size) ||
      overlaps vmas start (start + size)) = false ↔ FreeGap vmas size start := by
  simp only [Bool.or_eq_false_iff, addOverflow, decide_eq_false_iff_not, not_lt, overlaps,
    List.any_eq_false, Bool.and_eq_true, decide_eq_true_eq, not_and, FreeGap, hbase, true_and]
  constructor
  · rintro ⟨⟨-, hlimit⟩, hvmas⟩
    refine ⟨hlimit, ?_⟩
    intro vma hvma
    have := hvmas vma hvma
    omega
  · rintro ⟨hlimit, hvmas⟩
    refine ⟨⟨?_, hlimit⟩, ?_⟩
    · unfold VM_USER_MMAP_LIMIT at hlimit
      unfold UINT64_MAX
      omega
    · intro vma hvma
      have := hvmas vma hvma
      omega

theorem findGap_sound (h : findGap vmas size fuel start = some found)
    (hbase : VM_USER_MMAP_BASE ≤ start) : start ≤ found ∧ FreeGap vmas size found := by
  induction fuel generalizing start with
  | zero => simp [findGap] at h
  | succ fuel ih =>
    rw [findGap] at h
    split at h
    · dsimp only at h
      split at h
      · simp at h
      · have hnext := ih h (by omega)
        exact ⟨by omega, hnext.2⟩
    next hfree =>
      cases h
      exact ⟨le_rfl, (freeGap_iff hbase).1 (Bool.eq_false_iff.2 hfree)⟩

theorem findGap_complete (hgap : FreeGap vmas size found) (hsize : 0 < size)
    (hbase : VM_USER_MMAP_BASE ≤ start) (hle : start ≤ found)
    (hmod : found % NPK_PAGE_SIZE = start % NPK_PAGE_SIZE)
    (hfuel : VM_USER_MMAP_LIMIT ≤ start + fuel * NPK_PAGE_SIZE) :
    findGap vmas size fuel start ≠ none := by
  have hlimit := hgap.2.1
  induction fuel generalizing start with
  | zero => omega
  | succ fuel ih =>
    rw [findGap]
    split
    next hblocked =>
      have hne : start ≠ found := by
        rintro rfl
        rw [(freeGap_iff hbase).2 hgap] at hblocked
        exact absurd hblocked (by decide)
      have hnext : start + NPK_PAGE_SIZE ≤ found := by
        unfold NPK_PAGE_SIZE at hmod ⊢
        omega
      dsimp only
      rw [if_neg (by simp only [Bool.or_eq_true, decide_eq_true_eq]; omega)]
      apply ih (by omega) hnext
      · rw [hmod, Nat.add_mod_right]
      · rw [Nat.succ_mul] at hfuel
        omega
    · simp

theorem FreeGap.aligned (h : FreeGap vmas length start) (hvmas : ∀ vma ∈ vmas, vma.Ok)
    (hsize : pageAlignUp length = some size) : FreeGap vmas size (pageAlign start) := by
  obtain ⟨hbase, hlimit, hfree⟩ := h
  obtain ⟨hmod, -, hround⟩ := pageAlignUp_eq_some hsize
  unfold VM_USER_MMAP_BASE at hbase
  unfold VM_USER_MMAP_LIMIT at hlimit
  unfold FreeGap pageAlign VM_USER_MMAP_BASE VM_USER_MMAP_LIMIT
  unfold NPK_PAGE_SIZE at hmod hround ⊢
  refine ⟨by omega, by omega, ?_⟩
  intro vma hvma
  have hstart := (hvmas vma hvma).start_aligned
  have hstop := (hvmas vma hvma).stop_aligned
  unfold NPK_PAGE_SIZE at hstart hstop
  rcases hfree vma hvma with hbefore | hafter
  · omega
  · omega

end gaps

theorem chooseStart_zero {process : UserProcess} {size : ℕ} {flags : Word}
    (hflags : hasBit flags NPK_MAP_FIXED = false) :
    chooseStart process 0 size flags =
      match findGap process.vmas size (VM_USER_MMAP_LIMIT / NPK_PAGE_SIZE + 1)
          (max process.mmapCursor VM_USER_MMAP_BASE) with
      | none => .error VM_ENOMEM
      | some start => .ok start := by
  have hstart : (if (if process.mmapCursor ≠ 0 then process.mmapCursor else VM_USER_MMAP_BASE) <
      VM_USER_MMAP_BASE then VM_USER_MMAP_BASE
      else if process.mmapCursor ≠ 0 then process.mmapCursor else VM_USER_MMAP_BASE) =
      max process.mmapCursor VM_USER_MMAP_BASE := by
    split_ifs <;> omega
  unfold chooseStart
  rw [hflags, if_neg Bool.false_ne_true]
  dsimp only
  rewrite [if_neg (not_not.2 rfl), hstart]
  rfl

variable {answers : Answers} {mem : Memory} {length : ℕ}

/-- A call without a hint is refused for want of memory only if the heap has none or the
search finds nothing. -/
theorem vmMapAnonymous_enomem {protection flags : Word}
    (h : (vmMapAnonymous answers mem 0 length protection flags).1 = .error VM_ENOMEM) :
    answers.kmalloc 0 = false ∨ ∃ size, pageAlignUp length = some size ∧ 0 < size ∧
      findGap mem.process.vmas size (VM_USER_MMAP_LIMIT / NPK_PAGE_SIZE + 1)
        (max mem.process.mmapCursor VM_USER_MMAP_BASE) = none := by
  have heinval : VM_EINVAL ≠ VM_ENOMEM := by decide
  revert h
  fun_cases vmMapAnonymous answers mem 0 length protection flags with
  | case4 _ size hsize hpositive code hcode =>
    intro h
    obtain rfl := Except.error.inj h
    simp only [Bool.or_eq_true, decide_eq_true_eq, not_or] at hpositive
    cases hfixed : hasBit flags NPK_MAP_FIXED with
    | true =>
      simp only [chooseStart, hfixed, if_true] at hcode
      split at hcode
      · exact absurd (Except.error.inj hcode) heinval
      · cases hcode
    | false =>
      rw [chooseStart_zero hfixed] at hcode
      split at hcode
      next hnone => exact Or.inr ⟨size, hsize, Nat.pos_of_ne_zero hpositive.1, hnone⟩
      · cases hcode
  | case5 => exact fun h => absurd (Except.error.inj h) (by decide)
  | case6 _ _ _ _ _ _ _ hkmalloc => exact fun _ => Or.inl (by simpa using hkmalloc)
  | case7 => exact fun h => by cases h
  | _ => exact fun h => absurd (Except.error.inj h) heinval

theorem sysMmap_privateRequest {objects : Objects}
    {size : ℕ} (hlength : 0 < length) (hsize : pageAlignUp length = some size)
    (hfits : ¬(size = 0 ∨ VM_USER_MMAP_LIMIT - VM_USER_MMAP_BASE < size))
    (hsearch : findGap mem.process.vmas size (VM_USER_MMAP_LIMIT / NPK_PAGE_SIZE + 1)
      (max mem.process.mmapCursor VM_USER_MMAP_BASE) = none) :
    (sysMmap answers objects (privateRequest length) mem).1 = .error VM_ENOMEM := by
  have hflags : hasBit (NPK_MAP_PRIVATE ||| NPK_MAP_ANONYMOUS) NPK_MAP_ANONYMOUS = true ∧
      hasBit (NPK_MAP_PRIVATE ||| NPK_MAP_ANONYMOUS) (NPK_MAP_SHARED ||| NPK_MAP_PRIVATE) = true ∧
      hasBit (NPK_MAP_PRIVATE ||| NPK_MAP_ANONYMOUS) NPK_MAP_FIXED = false := by decide
  have hprotection : hasBit NPK_PROT_READ 0xfffffffffffffff8#64 = false ∧
      writeAndExec NPK_PROT_READ = false := by decide
  have hstart := @chooseStart_zero mem.process size _ hflags.2.2
  rw [hsearch] at hstart
  simp [sysMmap, privateRequest, vmMapAnonymous, hflags, hprotection, hlength.ne', hsize, hfits,
    hstart]

/-- In every run, an anonymous call without a hint fails for want of memory only if the
heap is exhausted or there is no gap, exactly if a gap, when there is one, can be had at
or above the cursor. -/
theorem mmap_finds_gap_iff (platform : Platform) (events : List Event) (m : Machine)
    (slot : Fin 128) (process : UserProcess) (length : ℕ)
    (hrun : run (step platform) (boot platform) events = some m)
    (hlive : m.slots slot = .live process) (hlength : 0 < length) :
    (∀ (answers : Answers) (arguments : MmapArguments), arguments.requested = 0 →
        arguments.length = length → hasBit arguments.flags NPK_MAP_ANONYMOUS = true →
        (sysMmap answers m.sharedObjects arguments ⟨m.frames, process⟩).1 = .error VM_ENOMEM →
        answers.kmalloc 0 = false ∨ ¬∃ start, FreeGap process.vmas length start) ↔
      ((∃ start, FreeGap process.vmas length start) →
        ∃ start, process.mmapCursor ≤ start ∧ FreeGap process.vmas length start) := by
  have hok : process.layout.Ok := run_ok hrun slot process hlive
  have hcursor : process.mmapCursor % NPK_PAGE_SIZE = 0 := hok.cursor
  constructor
  · rintro hfinds ⟨start, hgap⟩
    by_contra hnone
    have hshort : length ≤ VM_USER_MMAP_LIMIT - VM_USER_MMAP_BASE := by
      have := hgap.1
      have := hgap.2.1
      omega
    obtain ⟨size, hsize⟩ : ∃ size, pageAlignUp length = some size := by
      unfold pageAlignUp
      rw [if_neg]
      · exact ⟨_, rfl⟩
      · unfold VM_USER_MMAP_LIMIT VM_USER_MMAP_BASE at hshort
        unfold UINT64_MAX NPK_PAGE_SIZE
        omega
    obtain ⟨hmod, hle, hround⟩ := pageAlignUp_eq_some hsize
    have hsearch : findGap process.vmas size (VM_USER_MMAP_LIMIT / NPK_PAGE_SIZE + 1)
        (max process.mmapCursor VM_USER_MMAP_BASE) = none := by
      rw [Option.eq_none_iff_forall_ne_some]
      intro found hfound
      obtain ⟨hstart, hbase, hlimit, hfree⟩ := findGap_sound hfound (le_max_right _ _)
      refine hnone ⟨found, (le_max_left _ _).trans hstart, hbase, by omega, ?_⟩
      intro vma hvma
      have := hfree vma hvma
      omega
    have hfits : ¬(size = 0 ∨ VM_USER_MMAP_LIMIT - VM_USER_MMAP_BASE < size) := by
      unfold VM_USER_MMAP_LIMIT VM_USER_MMAP_BASE at *
      unfold NPK_PAGE_SIZE at hmod hround
      omega
    rcases hfinds sampleAnswers (privateRequest length) rfl rfl
      (show hasBit (NPK_MAP_PRIVATE ||| NPK_MAP_ANONYMOUS) NPK_MAP_ANONYMOUS = true by decide)
      (sysMmap_privateRequest hlength hsize hfits hsearch) with hexhausted | hnogap
    · cases hexhausted
    · exact hnogap ⟨start, hgap⟩
  · intro hcondition answers arguments hrequested harguments hanonymous hresult
    obtain ⟨requested, length', protection, flags, fd, handle, offset⟩ := arguments
    dsimp only at hrequested harguments hanonymous
    subst hrequested harguments
    have hanonymous' : (vmMapAnonymous answers ⟨m.frames, process⟩ 0 length' protection flags).1 =
        .error VM_ENOMEM := by
      unfold sysMmap at hresult
      dsimp only at hresult
      split at hresult
      · cases hresult
      · split at hresult
        · cases hresult
        · exact hresult
    rcases vmMapAnonymous_enomem hanonymous' with hexhausted | ⟨size, hsize, hpositive, hnone⟩
    · exact Or.inl hexhausted
    right
    intro hgap
    obtain ⟨start, hstart, hfree⟩ := hcondition hgap
    have hpage := hfree.aligned hok.each hsize
    apply findGap_complete hpage hpositive (le_max_right _ _) _ _ _ hnone
    · apply max_le _ hpage.1
      change process.mmapCursor ≤ pageAlign start
      unfold pageAlign
      unfold NPK_PAGE_SIZE at hcursor ⊢
      omega
    · have hmax : max process.mmapCursor VM_USER_MMAP_BASE % NPK_PAGE_SIZE = 0 := by
        rcases max_choice process.mmapCursor VM_USER_MMAP_BASE with hchoice | hchoice
        · rw [hchoice, hcursor]
        · rw [hchoice]
          rfl
      rw [pageAlign_mod, hmax]
    · unfold VM_USER_MMAP_LIMIT NPK_PAGE_SIZE
      omega

/-- The process of the sample machine maps the last page of the mmap area and unmaps it. -/
def mapLastPage : List Event :=
  let last := VM_USER_MMAP_LIMIT - NPK_PAGE_SIZE
  [.create sampleAnswers sampleExec true,
    .mmap 1 sampleAnswers
      { privateRequest NPK_PAGE_SIZE with
        requested := last, flags := NPK_MAP_PRIVATE ||| NPK_MAP_ANONYMOUS ||| NPK_MAP_FIXED },
    .munmap 1 sampleAnswers last NPK_PAGE_SIZE]

/-- The cursor is then above the area, and no mapping without a hint is made again. -/
theorem mmap_misses_gap :
    ∃ m process, run (step samplePlatform) (boot samplePlatform) mapLastPage = some m ∧
      m.slots 1 = .live process ∧ FreeGap process.vmas NPK_PAGE_SIZE VM_USER_MMAP_BASE ∧
      (sysMmap sampleAnswers m.sharedObjects (privateRequest NPK_PAGE_SIZE)
        ⟨m.frames, process⟩).1 = .error VM_ENOMEM ∧ sampleAnswers.kmalloc 0 = true := by
  have hrun : ((run (step samplePlatform) sampleBoot mapLastPage).bind fun m =>
      (m.processAt 1).map fun process =>
        (decide (process.mmapCursor = VM_USER_MMAP_LIMIT + NPK_PAGE_SIZE),
          addOverflow VM_USER_MMAP_BASE NPK_PAGE_SIZE ||
          decide (VM_USER_MMAP_LIMIT < VM_USER_MMAP_BASE + NPK_PAGE_SIZE) ||
          overlaps process.vmas VM_USER_MMAP_BASE (VM_USER_MMAP_BASE + NPK_PAGE_SIZE))) =
      some (true, false) := by
    decide +kernel
  obtain ⟨m, process, hm, hlive, hvalue⟩ := sample_run hrun
  have hcursor := of_decide_eq_true (congrArg Prod.fst hvalue)
  refine ⟨m, process, hm, hlive, (freeGap_iff le_rfl).1 (congrArg Prod.snd hvalue), ?_, rfl⟩
  apply sysMmap_privateRequest (by decide) rfl (by decide)
  change findGap process.vmas _ _ (max process.mmapCursor _) = none
  rw [hcursor]
  simp [findGap, VM_USER_MMAP_LIMIT, VM_USER_MMAP_BASE, NPK_PAGE_SIZE]

/-! ## What an unmap call takes away -/

theorem vmmUnmapPageRoot_leafAt (tables : PageTree) {page : ℕ} (hcanonical : canonical page = true)
    (path : List (Fin 512)) :
    (vmmUnmapPageRoot tables page).2.leafAt path =
      if path = pagePath page then none else tables.leafAt path := by
  unfold vmmUnmapPageRoot
  rw [hcanonical, if_neg (by decide)]
  cases hentry : tables.leafAt (pagePath page) with
  | none =>
    by_cases hpath : path = pagePath page
    · rw [if_pos hpath, hpath]
      exact hentry
    · rw [if_neg hpath]
  | some entry => exact alter_leafAt hentry _ (pagePath_ne_nil page) path

theorem unmapPages_leafAt {count page address : ℕ} {mem : Memory}
    (haligned : page % NPK_PAGE_SIZE = 0) (hlimit : page + count * NPK_PAGE_SIZE ≤ NPK_USER_MAX)
    (haddress : address < USER_LIMIT) :
    (unmapPages count page mem).process.tables.leafAt (pagePath address) =
      if page ≤ address ∧ address < page + count * NPK_PAGE_SIZE then none
      else mem.process.tables.leafAt (pagePath address) := by
  induction count generalizing page mem with
  | zero => rw [if_neg (by omega)]; rfl
  | succ count ih =>
    rw [Nat.succ_mul] at hlimit ⊢
    have hpage : page < USER_LIMIT := by
      unfold NPK_USER_MAX NPK_PAGE_SIZE at hlimit
      unfold USER_LIMIT
      omega
    have hhere : pagePath address = pagePath page ↔
        page ≤ address ∧ address < page + NPK_PAGE_SIZE := by
      unfold USER_LIMIT at haddress hpage
      constructor
      · intro heq
        have hsame := pagePath_inj (by omega) (by omega) heq
        unfold NPK_PAGE_SIZE at hsame haligned ⊢
        omega
      · intro hin
        apply pagePath_congr
        unfold NPK_PAGE_SIZE at hin haligned ⊢
        omega
    rw [unmapPages, ih (by rw [Nat.add_mod_right, haligned]) (by omega)]
    have hone : (unmapPage mem page).process.tables.leafAt (pagePath address) =
        if pagePath address = pagePath page then none
        else mem.process.tables.leafAt (pagePath address) :=
      vmmUnmapPageRoot_leafAt mem.process.tables (canonical_of_lt hpage) _
    rw [hone]
    simp only [hhere]
    split_ifs <;> first | rfl | omega

/-- The region is gone, and nothing else has changed. -/
structure Unmapped (mem : Memory) (start stop : ℕ) (result : ℤ × Memory) : Prop where
  success : result.1 = 0
  areas : result.2.process.vmas =
    mem.process.vmas.filter fun vma => decide (vma.stop ≤ start ∨ stop ≤ vma.start)
  pages : ∀ address, start ≤ address → address < stop →
    result.2.process.tables.leafAt (pagePath address) = none
  others : ∀ address < USER_LIMIT, address < start ∨ stop ≤ address →
    result.2.process.tables.leafAt (pagePath address) = mem.process.tables.leafAt (pagePath address)

def Whole (start stop : ℕ) (heap : Bool) (vmas : List Vma) : Prop :=
  ∃ vma ∈ vmas, vma.start = start ∧ vma.stop = stop ∧ hasBit vma.flags NPK_MAP_HEAP = heap

def Divided (start stop : ℕ) (vmas : List Vma) : Prop :=
  ∀ vma ∈ vmas, vma.start ≤ start → vma.stop < stop

section unmap

variable {mem : Memory} {start length size : ℕ} {heap : Bool}

theorem vmUnmap_divided (answers : Answers) (hsize : pageAlignUp length = some size)
    (h : Divided start (start + size) mem.process.vmas) :
    (vmUnmap answers mem start length).1 ≠ 0 := by
  rcases vmUnmap_cases answers mem start length with
    ⟨hfailed, -⟩ | ⟨size', before, vma, after, hsize', -, -, hvmas, hlow, hhigh, -, -⟩
  · exact hfailed.ne
  · rw [hsize] at hsize'
    obtain rfl := Option.some.inj hsize'
    have hstop := h vma (by simp [hvmas]) hlow
    omega

theorem eq_of_whole (hok : mem.layout.Ok) {whole vma : Vma} (hwhole : whole ∈ mem.process.vmas)
    (hstart : whole.start = start) (hstop : whole.stop = start + size)
    (hvma : vma ∈ mem.process.vmas) (hlow : vma.start ≤ start) (hhigh : start + size ≤ vma.stop) :
    vma = whole := by
  have hnonempty := (hok.each whole hwhole).nonempty
  have hfound : findVma mem.process.vmas start = some vma :=
    hok.findVma_of_mem hvma hlow (by omega)
  have hfound' : findVma mem.process.vmas start = some whole :=
    hok.findVma_of_mem hwhole hstart.le (by omega)
  exact Option.some.inj (hfound.symm.trans hfound')

theorem vmUnmap_heap (answers : Answers) (hok : mem.layout.Ok)
    (hsize : pageAlignUp length = some size)
    (h : Whole start (start + size) true mem.process.vmas) :
    (vmUnmap answers mem start length).1 ≠ 0 := by
  obtain ⟨whole, hwhole, hstart, hstop, hheap⟩ := h
  rcases vmUnmap_cases answers mem start length with
    ⟨hfailed, -⟩ | ⟨size', before, vma, after, hsize', hpositive, -, hvmas, hlow, hhigh, hnot, -⟩
  · exact hfailed.ne
  · rw [hsize] at hsize'
    obtain rfl := Option.some.inj hsize'
    rw [eq_of_whole hok hwhole hstart hstop (by simp [hvmas]) hlow hhigh, hheap] at hnot
    cases hnot

theorem vmUnmap_whole (answers : Answers) (hok : mem.layout.Ok)
    (hsize : pageAlignUp length = some size)
    (h : Whole start (start + size) false mem.process.vmas) :
    Unmapped mem start (start + size) (vmUnmap answers mem start length) := by
  obtain ⟨whole, hwhole, hstart, hstop, hheap⟩ := h
  have hvma := hok.each whole hwhole
  have hnonempty := hvma.nonempty
  have haligned := hvma.start_aligned
  have hhigh := hvma.high
  obtain ⟨hmod, hlength, hround⟩ := pageAlignUp_eq_some hsize
  have hsuccess : (vmUnmap answers mem start length).1 = 0 := by
    have hfind : mem.process.vmas.find? (fun vma =>
        decide (vma.start ≤ start) && decide (start + size ≤ vma.stop)) = some whole := by
      cases hfound : mem.process.vmas.find? (fun vma =>
          decide (vma.start ≤ start) && decide (start + size ≤ vma.stop)) with
      | none =>
        have hnot := List.find?_eq_none.1 hfound whole hwhole
        simp [hstart, hstop] at hnot
      | some vma =>
        have hin := List.find?_some hfound
        simp only [Bool.and_eq_true, decide_eq_true_eq] at hin
        rw [eq_of_whole hok hwhole hstart hstop (List.mem_of_find?_eq_some hfound) hin.1 hin.2]
    have hargs : ¬(start % NPK_PAGE_SIZE ≠ 0 ∨ length = 0) := by
      unfold NPK_PAGE_SIZE at *
      omega
    have hoverflow : ¬UINT64_MAX - start < size := by
      unfold NPK_USER_MAX at hhigh
      unfold UINT64_MAX
      omega
    simp [vmUnmap, hargs, hsize, addOverflow, hoverflow, hfind, hheap, hstart]
  rcases vmUnmap_cases answers mem start length with
    ⟨hfailed, -⟩ | ⟨size', before, vma, after, hsize', -, -, hvmas, hlow, hhigh', -, heq⟩
  · omega
  rw [hsize] at hsize'
  obtain rfl := Option.some.inj hsize'
  obtain rfl := eq_of_whole hok hwhole hstart hstop (by simp [hvmas]) hlow hhigh'
  have hcut : vma.cut start (start + size) = [] := by
    simp [Vma.cut, hstart, hstop]
  rw [hcut, List.nil_append] at heq
  have hpages : ∀ address < USER_LIMIT,
      (vmUnmap answers mem start length).2.process.tables.leafAt (pagePath address) =
        if start ≤ address ∧ address < start + size then none
        else mem.process.tables.leafAt (pagePath address) := by
    intro address haddress
    have hleaf := @unmapPages_leafAt (pagesBetween start (start + size)) start address
      (mem.setVmas (before ++ after)) (hstart ▸ haligned)
    rw [pagesBetween_mul hmod] at hleaf
    rw [heq]
    exact hleaf (by omega) haddress
  refine ⟨hsuccess, ?_, ?_, ?_⟩
  · have hleft : (vmUnmap answers mem start length).2.process.vmas = before ++ after := by
      rw [heq]
      exact congrArg Layout.vmas (unmapPages_layout _ _ (mem.setVmas (before ++ after)))
    have hpairwise : mem.process.vmas.Pairwise Vma.Apart := hok.apart
    have hkept : ∀ other ∈ before ++ after,
        decide (other.stop ≤ start ∨ start + size ≤ other.start) = true := by
      intro other hother
      have hapart := apart_of_mem (hvmas ▸ hpairwise) hother
      rw [decide_eq_true_iff, ← hstop, ← hstart]
      exact hapart.symm
    have hgone : ¬decide (vma.stop ≤ start ∨ start + size ≤ vma.start) = true := by
      rw [decide_eq_true_iff]
      omega
    rw [hleft, hvmas, List.filter_append, List.filter_cons, if_neg hgone, ← List.filter_append,
      List.filter_eq_self.2 hkept]
  · intro address hle hlt
    rw [hpages address (by unfold NPK_USER_MAX at hhigh; unfold USER_LIMIT; omega),
      if_pos ⟨hle, hlt⟩]
  · intro address haddress hout
    rw [hpages address haddress, if_neg (by omega)]

end unmap

/-! ## Between the two calls -/

/-- What may happen to a region between the call that maps it and the one that unmaps it. -/
inductive RegionEvent where
  | mprotect (answers : Answers) (address length : ℕ) (protection : Word)
  | fault (answers : Answers) (address : ℕ) (errorCode : Word) (rsp : ℕ)

/-- A protection call inside the region that succeeds, or a fault anywhere. -/
def regionStep (objects : Objects) (start stop : ℕ) (mem : Memory) : RegionEvent → Option Memory
  | .mprotect answers address length protection =>
    let result := sysMprotect answers mem address length protection
    if start ≤ address ∧ rangeEnd address length ≤ stop ∧ result.1 = 0 then some result.2
    else none
  | .fault answers address errorCode rsp =>
    some (vmHandlePageFault answers objects mem address errorCode rsp).2

def RegionEvent.Covers (start stop : ℕ) : RegionEvent → Prop
  | .mprotect _ address length _ => address = start ∧ rangeEnd address length = stop
  | .fault .. => True

section region

variable {objects : Objects} {start stop : ℕ} {mem next last : Memory} {event : RegionEvent}
  {events : List RegionEvent} {heap : Bool}

variable {answers : Answers} {address length : ℕ} {protection : Word}

theorem sysMprotect_zero (h : (sysMprotect answers mem address length protection).1 = 0) :
    sysMprotect answers mem address length protection =
      vmProtect answers mem address length protection := by
  unfold sysMprotect at h ⊢
  split at h
  · cases h
  next hrange => rw [if_neg hrange]

/-- Where there is nothing to split, the areas only get the protection. -/
theorem vmProtect_exact {size : ℕ}
    (hsize : pageAlignUp length = some size) (hfirst : SplitAt address mem.process.vmas)
    (hsecond : SplitAt (address + size) mem.process.vmas)
    (h : (vmProtect answers mem address length protection).1 = 0) :
    (vmProtect answers mem address length protection).2.process.vmas =
      mem.process.vmas.map (Vma.protect address (address + size) protection) := by
  have hunsplit : ∀ {point : ℕ} (kmalloc retain : Bool), SplitAt point mem.process.vmas →
      splitVmaAt kmalloc retain mem.process.vmas point = some mem.process.vmas := by
    intro point kmalloc retain hsplit
    have hnone : mem.process.vmas.find? (straddles point) = none := by
      rw [List.find?_eq_none]
      intro vma hvma
      have := hsplit vma hvma
      simp only [straddles, Bool.and_eq_true, decide_eq_true_eq]
      omega
    rw [splitVmaAt, hnone]
  revert h
  unfold vmProtect
  simp only [hsize, hunsplit _ _ hfirst, hunsplit _ _ hsecond]
  split_ifs
  · intro h
    cases h
  · intro h
    cases h
  · intro h
    cases h
  · intro h
    split <;> rfl

theorem regionStep_mprotect
    (h : regionStep objects start stop mem (.mprotect answers address length protection) =
      some next) :
    start ≤ address ∧ rangeEnd address length ≤ stop ∧
      vmProtect answers mem address length protection = (0, next) := by
  rw [regionStep] at h
  split at h
  next hcall =>
    obtain ⟨hlow, hhigh, hzero⟩ := hcall
    refine ⟨hlow, hhigh, ?_⟩
    rw [← sysMprotect_zero hzero, ← Option.some.inj h, ← hzero]
  · cases h

section

variable (hok : mem.layout.Ok) (hstep : regionStep objects start stop mem event = some next)

include hok hstep

theorem regionStep_changes :
    AreaChanges (fun _ => False) (fun _ _ _ => True) mem.layout next.layout := by
  cases event with
  | mprotect answers address length protection =>
    obtain ⟨-, -, heq⟩ := regionStep_mprotect hstep
    have hchanges := @vmProtect_changes (fun _ => False) answers mem hok address length protection
    rw [heq] at hchanges
    exact hchanges.mono (fun _ => id) fun _ _ _ _ => trivial
  | fault answers address errorCode rsp =>
    cases hstep
    have hpages := @vmHandlePageFault_changes ⟨objects, fun _ => False⟩ mem answers address
      errorCode rsp
    rw [hpages.layout]

theorem regionStep_divided
    (h : Divided start stop mem.process.vmas) : Divided start stop next.process.vmas := by
  intro piece hpiece hlow
  obtain ⟨vma, hvma, hfragment⟩ := (regionStep_changes hok hstep).fragment hpiece
  have hwithin := hfragment.within
  exact hwithin.2.trans_lt (h vma hvma (hwithin.1.trans hlow))

theorem regionStep_divides
    (hpart : ¬event.Covers start stop) : Divided start stop next.process.vmas := by
  cases event with
  | mprotect answers address length protection =>
    obtain ⟨hlow, hhigh, heq⟩ := regionStep_mprotect hstep
    rcases vmProtect_cases answers hok address length protection with
      ⟨hfailed, -⟩ | ⟨hfailed, -⟩ | ⟨size, first, second, hsize, -, -, hsplits, hsplits', hresult⟩
    · rw [heq] at hfailed
      exact absurd hfailed (lt_irrefl 0)
    · rw [heq] at hfailed
      exact absurd hfailed (lt_irrefl 0)
    · have hend : rangeEnd address length = address + size := by simp [rangeEnd, hsize]
      obtain ⟨-, hlength, -⟩ := pageAlignUp_eq_some hsize
      rw [RegionEvent.Covers, hend] at hpart
      rw [hend] at hhigh
      have hnext : next.process.vmas =
          second.map (Vma.protect address (address + size) protection) :=
        congrArg (fun result => result.2.process.vmas) (heq.symm.trans hresult)
      rw [hnext]
      intro piece hpiece hstart
      obtain ⟨vma, hvma, rfl⟩ := List.mem_map.1 hpiece
      rw [Vma.protect_start] at hstart
      rw [Vma.protect_stop]
      have hfirst := hsplits'.keeps address hsplits.split vma hvma
      have hsecond := hsplits'.split vma hvma
      have hpositive : length ≠ 0 := by
        rintro rfl
        simp [vmProtect, VM_EINVAL] at heq
      have hnonempty : 0 < size := by omega
      by_cases hfrom : address = start
      · have hto : address + size ≠ stop := fun hto => hpart ⟨hfrom, hto⟩
        have := hsecond (by omega)
        omega
      · have := hfirst (by omega)
        omega
  | fault answers address errorCode rsp => exact absurd trivial hpart

theorem regionStep_whole
    (hcovers : event.Covers start stop) (h : Whole start stop heap mem.process.vmas) :
    Whole start stop heap next.process.vmas := by
  cases event with
  | mprotect answers address length protection =>
    obtain ⟨-, -, heq⟩ := regionStep_mprotect hstep
    obtain ⟨rfl, hstop⟩ := hcovers
    obtain ⟨vma, hvma, hstart, hend, hheap⟩ := h
    have hnonempty := (hok.each vma hvma).nonempty
    cases hsize : pageAlignUp length with
    | none =>
      rw [rangeEnd, hsize, Option.getD_none] at hstop
      omega
    | some size =>
      rw [rangeEnd, hsize, Option.getD_some] at hstop
      have hself : ∀ x, address ≤ x → x < stop → ∀ other ∈ mem.process.vmas,
          other.start ≤ x → x < other.stop → other = vma := by
        intro x hlow hhigh other hother hstart' hstop'
        have hfound := hok.findVma_of_mem hother hstart' hstop'
        rw [hok.findVma_of_mem hvma (hstart.trans_le hlow) (hhigh.trans_eq hend.symm)] at hfound
        exact (Option.some.inj hfound).symm
      have hfirst : SplitAt address mem.process.vmas := by
        intro other hother hlow
        by_contra hhigh
        have := hself address le_rfl (by omega) other hother hlow.le (by omega)
        rw [this] at hlow
        omega
      have hsecond : SplitAt (address + size) mem.process.vmas := by
        intro other hother hlow
        by_contra hhigh
        have := hself (stop - 1) (by omega) (by omega) other hother (by omega) (by omega)
        rw [this] at hhigh
        omega
      have hareas := vmProtect_exact hsize hfirst hsecond (congrArg Prod.fst heq)
      rw [heq] at hareas
      refine ⟨vma.protect address (address + size) protection, ?_, ?_, ?_, ?_⟩
      · rw [hareas]
        exact List.mem_map_of_mem hvma
      · rw [Vma.protect_start, hstart]
      · rw [Vma.protect_stop, hend]
      · rw [(Vma.protect_part _ _ _ vma).flags, hheap]
  | fault answers address errorCode rsp =>
    cases hstep
    have hpages := @vmHandlePageFault_changes ⟨objects, fun _ => False⟩ mem answers address
      errorCode rsp
    have hvmas : (vmHandlePageFault answers objects mem address errorCode rsp).2.process.vmas =
        mem.process.vmas := congrArg Layout.vmas hpages.layout
    rwa [hvmas]

end

theorem region_whole (hok : mem.layout.Ok) (h : Whole start stop heap mem.process.vmas)
    (hcovers : ∀ event ∈ events, event.Covers start stop)
    (hrun : run (regionStep objects start stop) mem events = some last) :
    last.layout.Ok ∧ Whole start stop heap last.process.vmas := by
  have hpreserve : ∀ mem event next,
      (mem.layout.Ok ∧ Whole start stop heap mem.process.vmas) → event.Covers start stop →
      regionStep objects start stop mem event = some next →
      next.layout.Ok ∧ Whole start stop heap next.process.vmas := by
    rintro mem event next ⟨hok, h⟩ hcovers hstep
    exact ⟨hok.afterChanges (regionStep_changes hok hstep), regionStep_whole hok hstep hcovers h⟩
  exact invariant_run hpreserve ⟨hok, h⟩ (Guarded.of_forall fun _ => hcovers) hrun

theorem region_divided (hok : mem.layout.Ok)
    (hpart : Divided start stop mem.process.vmas ∨ ∃ event ∈ events, ¬event.Covers start stop)
    (hrun : run (regionStep objects start stop) mem events = some last) :
    Divided start stop last.process.vmas := by
  induction events generalizing mem with
  | nil =>
    cases hrun
    rcases hpart with hdivided | ⟨event, hevent, -⟩
    · exact hdivided
    · cases hevent
  | cons event events ih =>
    obtain ⟨next, hstep, hrest⟩ := run_cons_eq_some hrun
    apply ih (hok.afterChanges (regionStep_changes hok hstep)) _ hrest
    rcases hpart with hdivided | ⟨other, hother, hnot⟩
    · exact Or.inl (regionStep_divided hok hstep hdivided)
    · rcases List.mem_cons.1 hother with rfl | hlater
      · exact Or.inl (regionStep_divides hok hstep hnot)
      · exact Or.inr ⟨other, hlater, hnot⟩

end region

/-- In every run, an anonymous region is unmapped as it was mapped exactly if it was not
mapped with the flag of the heap and no protection call in between was for a strict part
of it. -/
theorem munmap_undoes_mmap_iff (platform : Platform) (history : List Event) (m : Machine)
    (slot : Fin 128) (process : UserProcess)
    (hhistory : run (step platform) (boot platform) history = some m)
    (hlive : m.slots slot = .live process) (answers unmapAnswers : Answers)
    (arguments : MmapArguments) (start : ℕ) (last : Memory)
    (hanonymous : hasBit arguments.flags NPK_MAP_ANONYMOUS = true)
    (hmap : (sysMmap answers m.sharedObjects arguments ⟨m.frames, process⟩).1 = .ok start)
    (events : List RegionEvent)
    (hrun : run (regionStep m.sharedObjects start (rangeEnd start arguments.length))
      (sysMmap answers m.sharedObjects arguments ⟨m.frames, process⟩).2 events = some last) :
    Unmapped last start (rangeEnd start arguments.length)
        (vmUnmap unmapAnswers last start arguments.length) ↔
      hasBit arguments.flags NPK_MAP_HEAP = false ∧
        ∀ event ∈ events, event.Covers start (rangeEnd start arguments.length) := by
  have hok : (Memory.layout ⟨m.frames, process⟩).Ok := run_ok hhistory slot process hlive
  have hresult := @sysMmap_result answers _ hok.cursor m.sharedObjects arguments
  have hmade := hok.afterChanges (@MapResult.changes _ _ _ _ _ (arguments.Makes m.sharedObjects)
    (fun _ _ _ => False) hresult (fun _ => Or.inl) fun _ hvma => hvma.makes)
  have houtcome := hresult.outcome
  clear hresult
  rw [hmap] at houtcome
  generalize (sysMmap answers m.sharedObjects arguments ⟨m.frames, process⟩).2 = made at *
  obtain ⟨size, hsize, hwhole⟩ : ∃ size, pageAlignUp arguments.length = some size ∧
      Whole start (start + size) (hasBit arguments.flags NPK_MAP_HEAP) made.process.vmas := by
    generalize made.process.vmas = vmas at houtcome ⊢
    cases houtcome with
    | made vma hvma hfree hmakes =>
      rcases hmakes with ⟨-, hanonymous'⟩ | ⟨hnot, -⟩
      · have hnonempty := hvma.nonempty
        exact ⟨_, hanonymous'.size, vma, List.mem_cons_self, rfl, by omega,
          congrArg (hasBit · NPK_MAP_HEAP) hanonymous'.flags_eq⟩
      · rw [hanonymous] at hnot
        cases hnot
  have hend : rangeEnd start arguments.length = start + size := by simp [rangeEnd, hsize]
  rw [hend] at hrun ⊢
  constructor
  · intro hunmapped
    have hcovers : ∀ event ∈ events, event.Covers start (start + size) := by
      intro event hevent
      by_contra hnot
      exact vmUnmap_divided unmapAnswers hsize
        (region_divided hmade (Or.inr ⟨event, hevent, hnot⟩) hrun) hunmapped.success
    refine ⟨Bool.eq_false_iff.2 ?_, hcovers⟩
    intro hheap
    rw [hheap] at hwhole
    obtain ⟨hlast, hwhole'⟩ := region_whole hmade hwhole hcovers hrun
    exact vmUnmap_heap unmapAnswers hlast hsize hwhole' hunmapped.success
  · rintro ⟨hheap, hcovers⟩
    rw [hheap] at hwhole
    obtain ⟨hlast, hwhole'⟩ := region_whole hmade hwhole hcovers hrun
    exact vmUnmap_whole unmapAnswers hlast hsize hwhole'

/-- Two pages are mapped, `mprotect` is called for some of them, and both are unmapped: the
start of the region and the result of the last call. -/
def unmapTwoPages (length : ℕ) (m : Machine) (process : UserProcess) : Option ℕ × Option ℤ :=
  let result := sysMmap sampleAnswers m.sharedObjects (privateRequest 8192) ⟨m.frames, process⟩
  (result.1.toOption,
    (run (regionStep m.sharedObjects VM_USER_MMAP_BASE (rangeEnd VM_USER_MMAP_BASE 8192)) result.2
      [.mprotect sampleAnswers VM_USER_MMAP_BASE length NPK_PROT_WRITE]).map fun last =>
        (vmUnmap sampleAnswers last VM_USER_MMAP_BASE 8192).1)

theorem sample_created :
    ∃ m process, run (step samplePlatform) (boot samplePlatform)
        [.create sampleAnswers sampleExec true] = some m ∧ m.slots 1 = .live process ∧
      unmapTwoPages 4096 m process = (some VM_USER_MMAP_BASE, some VM_EINVAL) ∧
      unmapTwoPages 8192 m process = (some VM_USER_MMAP_BASE, some 0) := by
  have hrun : ((run (step samplePlatform) sampleBoot
      [.create sampleAnswers sampleExec true]).bind fun m => (m.processAt 1).map fun process =>
        (unmapTwoPages 4096 m process, unmapTwoPages 8192 m process)) =
      some ((some VM_USER_MMAP_BASE, some VM_EINVAL), some VM_USER_MMAP_BASE, some 0) := by
    decide +kernel
  obtain ⟨m, process, hm, hlive, hvalue⟩ := sample_run hrun
  exact ⟨m, process, hm, hlive, Prod.mk.inj hvalue⟩

theorem mmap_finds_gap_iff_sample :
    ∃ m process, run (step samplePlatform) (boot samplePlatform) mappingRun = some m ∧
      m.slots 1 = .live process ∧ process.mmapCursor = VM_USER_MMAP_BASE + 16384 ∧
      FreeGap process.vmas 4096 (VM_USER_MMAP_BASE + 8192) ∧
      (sysMmap sampleAnswers m.sharedObjects (privateRequest 4096) ⟨m.frames, process⟩).1 ≠
        .error VM_ENOMEM := by
  obtain ⟨m, process, hm, hlive, hcursor, hstops, -⟩ := sample_mapped
  have hbelow : ∀ stop ∈ [VM_USER_MMAP_BASE + 4096, VM_USER_MMAP_BASE + 8192, 0x100401000,
      0x401000], stop ≤ VM_USER_MMAP_BASE + 8192 := by
    decide
  have hgaps : ∀ start, VM_USER_MMAP_BASE + 8192 ≤ start → start ≤ VM_USER_MMAP_BASE + 16384 →
      FreeGap process.vmas 4096 start := by
    intro start hlow hhigh
    refine ⟨(Nat.le_add_right _ _).trans hlow, (Nat.add_le_add_right hhigh _).trans (by decide), ?_⟩
    intro vma hvma
    have hstop : vma.stop ∈ process.vmas.map Vma.stop := List.mem_map_of_mem hvma
    rw [hstops] at hstop
    exact Or.inl ((hbelow vma.stop hstop).trans hlow)
  refine ⟨m, process, hm, hlive, hcursor, hgaps _ le_rfl (by decide), ?_⟩
  intro hfails
  have hreached : ∃ start, process.mmapCursor ≤ start ∧ FreeGap process.vmas 4096 start :=
    ⟨_, le_rfl, hgaps _ (by rw [hcursor]; decide) hcursor.le⟩
  rcases (mmap_finds_gap_iff samplePlatform _ m 1 process 4096 hm hlive (by decide)).2
    (fun _ => hreached) sampleAnswers (privateRequest 4096) rfl rfl (by decide) hfails with
    hheap | hnone
  · cases hheap
  · exact hnone ⟨_, hgaps _ le_rfl (by decide)⟩

theorem munmap_after_partial_mprotect :
    ∃ m process, run (step samplePlatform) (boot samplePlatform)
        [.create sampleAnswers sampleExec true] = some m ∧ m.slots 1 = .live process ∧
      unmapTwoPages 4096 m process = (some VM_USER_MMAP_BASE, some VM_EINVAL) := by
  obtain ⟨m, process, hm, hlive, hpartial, -⟩ := sample_created
  exact ⟨m, process, hm, hlive, hpartial⟩

theorem munmap_undoes_mmap_iff_sample :
    ∃ last, Unmapped last VM_USER_MMAP_BASE (rangeEnd VM_USER_MMAP_BASE 8192)
      (vmUnmap sampleAnswers last VM_USER_MMAP_BASE 8192) := by
  obtain ⟨m, process, hm, hlive, -, hvalue⟩ := sample_created
  obtain ⟨hmap, hlast⟩ := Prod.mk.inj hvalue
  obtain ⟨last, hlast, -⟩ := Option.map_eq_some_iff.1 hlast
  have hok : (sysMmap sampleAnswers m.sharedObjects (privateRequest 8192)
      ⟨m.frames, process⟩).1 = .ok VM_USER_MMAP_BASE := by
    cases hresult : (sysMmap sampleAnswers m.sharedObjects (privateRequest 8192)
        ⟨m.frames, process⟩).1 with
    | error code =>
      rw [hresult] at hmap
      cases hmap
    | ok start =>
      rw [hresult] at hmap
      rw [Option.some.inj hmap]
  refine ⟨last, (munmap_undoes_mmap_iff samplePlatform _ m 1 process hm hlive sampleAnswers
    sampleAnswers (privateRequest 8192) VM_USER_MMAP_BASE last ?_ hok _ hlast).2 ⟨?_, ?_⟩⟩
  · decide
  · decide
  · intro event hevent
    rw [List.mem_singleton.1 hevent]
    exact ⟨rfl, rfl⟩

end NPKernel.Vm
