import NPKernel.AreaLists
import NPKernel.ElfImages
import NPKernel.GuardedRuns

/-!
# What the ELF validation guarantees

The loop of `elf64_validate_at_bias` goes through the program headers once.  Of the
headers it has passed it knows that every loadable segment has a valid range, that no
two of them have a page in common, how many pages they have, and whether one of them is
executable and holds the entry point.
-/

namespace NPKernel.Vm

open GuardedRuns

variable {bias imageSize entry : ℕ} {ph : Elf64ProgramHeader} {range : SegmentRange}
  {image : Image} {seen : Validation}

def Elf64ProgramHeader.pages (ph : Elf64ProgramHeader) (bias : ℕ) : Finset ℕ :=
  Finset.Ico ((ph.vaddr + bias) / NPK_PAGE_SIZE)
    ((ph.vaddr + bias + ph.memsz + NPK_PAGE_SIZE - 1) / NPK_PAGE_SIZE)

def loadable (programs : List Elf64ProgramHeader) : List Elf64ProgramHeader :=
  programs.filter fun ph => ph.kind == PT_LOAD

/-- The segments of an image at a load bias. -/
structure SoundSegments (imageSize bias entry : ℕ) (segments : List Elf64ProgramHeader) :
    Prop where
  file : ∀ ph ∈ segments, ph.offset + ph.filesz ≤ imageSize
  low : ∀ ph ∈ segments, NPK_USER_MIN ≤ ph.vaddr + bias
  high : ∀ ph ∈ segments, ph.vaddr + bias + ph.memsz ≤ NPK_USER_MAX
  apart : segments.Pairwise fun first second => Disjoint (first.pages bias) (second.pages bias)
  exclusive : ∀ ph ∈ segments, ¬(hasBit ph.flags PF_W = true ∧ hasBit ph.flags PF_X = true)
  count : (segments.map fun ph => (ph.pages bias).card).sum ≤ NPK_MAX_ELF_PAGES
  entered : ∃ ph ∈ segments, hasBit ph.flags PF_X = true ∧
    ph.vaddr + bias ≤ entry ∧ entry < ph.vaddr + bias + ph.memsz

/-! ## One segment -/

structure SegmentOk (ph : Elf64ProgramHeader) (imageSize bias : ℕ) (range : SegmentRange) :
    Prop where
  nonempty : 0 < ph.memsz
  contents : ph.filesz ≤ ph.memsz
  file : ph.offset + ph.filesz ≤ imageSize
  exclusive : ¬(hasBit ph.flags PF_W = true ∧ hasBit ph.flags PF_X = true)
  low : NPK_USER_MIN ≤ ph.vaddr + bias
  high : ph.vaddr + bias + ph.memsz ≤ NPK_USER_MAX
  start : range.start = ph.vaddr + bias
  stop : range.stop = ph.vaddr + bias + ph.memsz
  pageStart : range.pageStart = (ph.vaddr + bias) / NPK_PAGE_SIZE * NPK_PAGE_SIZE
  pageEnd : range.pageEnd =
    (ph.vaddr + bias + ph.memsz + NPK_PAGE_SIZE - 1) / NPK_PAGE_SIZE * NPK_PAGE_SIZE

theorem userSpan_eq_some {start length stop : ℕ} (h : userSpan start length bias = some stop) :
    0 < length ∧ NPK_USER_MIN ≤ start + bias ∧ start + bias + length ≤ NPK_USER_MAX ∧
      stop = start + bias + length := by
  revert h
  fun_cases userSpan start length bias with
  | case4 hargs _ hrange hstop =>
    intro h
    simp only [Bool.or_eq_true, decide_eq_true_eq, not_or, not_lt, not_le] at hargs hrange
    have hvalue := Option.some.inj h
    omega
  | _ => exact nofun

theorem segmentRangeValid_ok
    (h : segmentRangeValid ph imageSize bias = some range) : SegmentOk ph imageSize bias range := by
  revert h
  fun_cases segmentRangeValid ph imageSize bias with
  | case8 hsize hfile _ hflags stop hspan _ pageEnd hup =>
    intro h
    cases h
    have hbounds := userSpan_eq_some hspan
    have hend : pageEnd = (stop + NPK_PAGE_SIZE - 1) / NPK_PAGE_SIZE * NPK_PAGE_SIZE := by
      unfold pageAlignUp at hup
      split at hup <;> cases hup
      rfl
    simp only [Bool.or_eq_true, Bool.and_eq_true, decide_eq_true_eq, not_or, not_lt,
      not_and] at hsize hfile hflags
    constructor
    · exact hbounds.1
    · exact hsize.1
    · show ph.offset + ph.filesz ≤ imageSize
      omega
    · intro hboth
      exact hflags hboth.1 hboth.2
    · exact hbounds.2.1
    · exact hbounds.2.2.1
    · rfl
    · exact hbounds.2.2.2
    · rfl
    · rw [← hbounds.2.2.2]
      exact hend
  | _ => exact nofun

theorem SegmentOk.card_pages (h : SegmentOk ph imageSize bias range) :
    (ph.pages bias).card = (range.pageEnd - range.pageStart) / NPK_PAGE_SIZE := by
  rw [Elf64ProgramHeader.pages, Nat.card_Ico, h.pageEnd, h.pageStart, ← Nat.sub_mul,
    Nat.mul_div_cancel _ (by decide)]

/-- The overlap test compares the start of the earlier segment, which need not be the
start of a page, with the end of the last page of the later one; this is enough. -/
theorem SegmentOk.disjoint {first second : Elf64ProgramHeader}
    {current : SegmentRange} (hfirst : SegmentOk first imageSize bias range)
    (hsecond : SegmentOk second imageSize bias current)
    (h : ¬(current.pageStart < range.pageEnd ∧ range.start < current.pageEnd)) :
    Disjoint (first.pages bias) (second.pages bias) := by
  rw [Finset.disjoint_left]
  intro page hpage hpage'
  rw [Elf64ProgramHeader.pages, Finset.mem_Ico] at hpage hpage'
  apply h
  rw [hsecond.pageStart, hfirst.pageEnd, hfirst.start, hsecond.pageEnd]
  simp only [NPK_PAGE_SIZE] at hpage hpage' ⊢
  omega

/-! ## The loop -/

structure Checked (image : Image) (bias entry : ℕ) (seen : Validation) : Prop where
  valid : ∀ ph ∈ loadable seen.earlier, ∃ range, segmentRangeValid ph image.length bias = some range
  apart : (loadable seen.earlier).Pairwise fun first second =>
    Disjoint (first.pages bias) (second.pages bias)
  count : seen.pageCount = ((loadable seen.earlier).map fun ph => (ph.pages bias).card).sum
  limit : seen.pageCount ≤ NPK_MAX_ELF_PAGES
  entered : seen.entryValid = true → ∃ ph ∈ loadable seen.earlier, hasBit ph.flags PF_X = true ∧
    ph.vaddr + bias ≤ entry ∧ entry < ph.vaddr + bias + ph.memsz

theorem loadable_append (programs : List Elf64ProgramHeader) (ph : Elf64ProgramHeader) :
    loadable (programs ++ [ph]) =
      if ph.kind = PT_LOAD then loadable programs ++ [ph] else loadable programs := by
  unfold loadable
  rw [List.filter_append]
  by_cases hkind : ph.kind = PT_LOAD <;> simp [hkind]

theorem Checked.skip {next : Validation}
    (h : Checked image bias entry seen) (hkind : ph.kind ≠ PT_LOAD)
    (hearlier : next.earlier = seen.earlier ++ [ph]) (hcount : next.pageCount = seen.pageCount)
    (hentry : next.entryValid = seen.entryValid) : Checked image bias entry next := by
  have hsame : loadable next.earlier = loadable seen.earlier := by
    rw [hearlier, loadable_append, if_neg hkind]
  constructor
  · rw [hsame]
    exact h.valid
  · rw [hsame]
    exact h.apart
  · rw [hsame, hcount]
    exact h.count
  · rw [hcount]
    exact h.limit
  · rw [hsame, hentry]
    exact h.entered

theorem loadSegmentsOverlap_eq_false {earlier : List Elf64ProgramHeader}
    {current : SegmentRange} (h : loadSegmentsOverlap earlier imageSize bias current = false)
    (hph : ph ∈ loadable earlier) (hrange : segmentRangeValid ph imageSize bias = some range) :
    ¬(current.pageStart < range.pageEnd ∧ range.start < current.pageEnd) := by
  have hmem := List.mem_filter.1 hph
  have hno := List.any_eq_false.1 h ph hmem.1
  intro hboth
  apply hno
  rw [hmem.2, hrange]
  simp [hboth.1, hboth.2]

theorem Checked.step {next : Validation} (h : Checked image bias entry seen)
    (hstep : validateProgram image bias entry seen ph = some next) :
    Checked image bias entry next ∧ next.earlier = seen.earlier ++ [ph] := by
  unfold validateProgram at hstep
  dsimp only at hstep
  by_cases hinterp : ph.kind = PT_INTERP
  · have hkind : ph.kind ≠ PT_LOAD := by
      rw [hinterp]
      decide
    rw [if_pos hinterp] at hstep
    split at hstep
    · simp at hstep
    · cases hstep
      exact ⟨h.skip hkind rfl rfl rfl, rfl⟩
  rw [if_neg hinterp] at hstep
  by_cases hdynamic : ph.kind = PT_DYNAMIC
  · have hkind : ph.kind ≠ PT_LOAD := by
      rw [hdynamic]
      decide
    rw [if_pos hdynamic] at hstep
    split at hstep
    · simp at hstep
    · cases hstep
      exact ⟨h.skip hkind rfl rfl rfl, rfl⟩
  rw [if_neg hdynamic] at hstep
  by_cases hkind : ph.kind = PT_LOAD
  · rw [if_neg (by simp [hkind])] at hstep
    cases hrange : segmentRangeValid ph image.length bias with
    | none => simp [hrange] at hstep
    | some range =>
      simp only [hrange] at hstep
      split at hstep
      · simp at hstep
      next hoverlap =>
      split at hstep
      · simp at hstep
      next hpages =>
      cases hstep
      have hok := segmentRangeValid_ok hrange
      have hloads : loadable (seen.earlier ++ [ph]) = loadable seen.earlier ++ [ph] := by
        rw [loadable_append, if_pos hkind]
      refine ⟨?_, rfl⟩
      constructor
      · intro other hother
        rw [hloads, List.mem_append] at hother
        cases hother with
        | inl hother => exact h.valid other hother
        | inr hother =>
          rw [List.mem_singleton.1 hother]
          exact ⟨range, hrange⟩
      · rw [hloads, List.pairwise_append]
        refine ⟨h.apart, List.pairwise_singleton _ _, ?_⟩
        intro other hother last hlast
        rw [List.mem_singleton.1 hlast]
        obtain ⟨range', hrange'⟩ := h.valid other hother
        apply (segmentRangeValid_ok hrange').disjoint hok
        exact loadSegmentsOverlap_eq_false (Bool.eq_false_of_not_eq_true hoverlap) hother hrange'
      · rw [hloads, List.map_append, List.sum_append, ← h.count]
        simp [hok.card_pages]
      · have hlimit := h.limit
        have hstart := hok.pageStart
        have hend := hok.pageEnd
        show seen.pageCount + (range.pageEnd - range.pageStart) / NPK_PAGE_SIZE ≤ _
        simp only [NPK_MAX_ELF_PAGES, NPK_PAGE_SIZE] at hlimit hpages ⊢
        omega
      · intro hvalid
        rw [hloads]
        simp only [Bool.or_eq_true, Bool.and_eq_true, decide_eq_true_eq] at hvalid
        cases hvalid with
        | inl hvalid =>
          obtain ⟨other, hother, hentry⟩ := h.entered hvalid
          exact ⟨other, List.mem_append_left _ hother, hentry⟩
        | inr hvalid =>
          refine ⟨ph, List.mem_append_right _ (List.mem_singleton_self ph), hvalid.2, ?_⟩
          rw [← hok.stop, ← hok.start]
          exact hvalid.1
  · rw [if_pos (by simpa using hkind)] at hstep
    cases hstep
    exact ⟨h.skip hkind rfl rfl rfl, rfl⟩

theorem Checked.empty (image : Image) (bias entry : ℕ) : Checked image bias entry {} := by
  constructor
  · intro ph hph
    simp [loadable] at hph
  · exact List.Pairwise.nil
  · rfl
  · exact Nat.zero_le _
  · intro hvalid
    simp at hvalid

theorem Checked.loop {programs : List Elf64ProgramHeader}
    {last : Validation} (h : Checked image bias entry seen)
    (hloop : programs.foldlM (validateProgram image bias entry) seen = some last) :
    Checked image bias entry last ∧ last.earlier = seen.earlier ++ programs := by
  induction programs generalizing seen with
  | nil =>
    cases hloop
    exact ⟨h, (List.append_nil _).symm⟩
  | cons ph programs ih =>
    rw [List.foldlM_cons] at hloop
    obtain ⟨next, hstep, hrest⟩ := Option.bind_eq_some_iff.1 hloop
    obtain ⟨hnext, hearlier⟩ := h.step hstep
    obtain ⟨hlast, hall⟩ := ih hnext hrest
    refine ⟨hlast, ?_⟩
    rw [hall, hearlier, List.append_assoc]
    rfl

/-! ## The whole validation -/

theorem Checked.sound (h : Checked image bias entry seen) (hentry : seen.entryValid = true) :
    SoundSegments image.length bias entry (loadable seen.earlier) := by
  have hok : ∀ ph ∈ loadable seen.earlier, ∃ range, SegmentOk ph image.length bias range := by
    intro ph hph
    obtain ⟨range, hrange⟩ := h.valid ph hph
    exact ⟨range, segmentRangeValid_ok hrange⟩
  constructor
  · intro ph hph
    exact (hok ph hph).choose_spec.file
  · intro ph hph
    exact (hok ph hph).choose_spec.low
  · intro ph hph
    exact (hok ph hph).choose_spec.high
  · exact h.apart
  · intro ph hph
    exact (hok ph hph).choose_spec.exclusive
  · rw [← h.count]
    exact h.limit
  · exact h.entered hentry

theorem headerValid_eq_some {header : Elf64Header}
    (h : headerValid image = some header) : header = elfHeader image := by
  revert h
  fun_cases headerValid image with
  | case5 => exact fun h => (Option.some.inj h).symm
  | _ => exact nofun

theorem elf64ValidateAtBias_checked (h : elf64ValidateAtBias image bias = true) :
    ∃ seen, Checked image bias ((elfHeader image).entry + bias) seen ∧
      seen.earlier = programHeaders image (elfHeader image) ∧ seen.entryValid = true := by
  unfold elf64ValidateAtBias at h
  cases hheader : headerValid image with
  | none => simp [hheader] at h
  | some header =>
    obtain rfl := headerValid_eq_some hheader
    simp only [hheader] at h
    split at h
    · simp at h
    cases hloop : (programHeaders image (elfHeader image)).foldlM
        (validateProgram image bias ((elfHeader image).entry + bias)) {} with
    | none => simp [hloop] at h
    | some seen =>
      obtain ⟨hchecked, hearlier⟩ := (Checked.empty image bias _).loop hloop
      simp only [hloop, Bool.and_eq_true] at h
      exact ⟨seen, hchecked, hearlier, h.2⟩

theorem elf64ValidateAtBias_sound (h : elf64ValidateAtBias image bias = true) :
    SoundSegments image.length bias ((elfHeader image).entry + bias)
      (loadable (programHeaders image (elfHeader image))) := by
  obtain ⟨seen, hchecked, hearlier, hentry⟩ := elf64ValidateAtBias_checked h
  rw [← hearlier]
  exact hchecked.sound hentry

def loadResult (image : Image) (bias low high : ℕ) : ElfLoadResult :=
  { entry := (elfHeader image).entry + bias, imageBase := low, imageEnd := high
    loadBias := bias
    programHeader :=
      locateProgramHeader (elfHeader image) (programHeaders image (elfHeader image)) bias
    programHeaderCount := (elfHeader image).phnum
    programHeaderSize := (elfHeader image).phentsize }

theorem elf64LoadInAddressSpace_cases (kmalloc : Bool) (image : Image) (bias : ℕ) (mem : Memory) :
    (∃ error, elf64LoadInAddressSpace kmalloc image bias mem = (.error error, mem)) ∨
    (elf64ValidateAtBias image bias = true ∧ ∃ low high pages valid,
      segmentExtent image.length bias ((elfHeader image).entry + bias)
        (programHeaders image (elfHeader image)) = some (low, high, pages, valid) ∧
      ∀ error records next,
        loadSegments image bias pages (programHeaders image (elfHeader image)) [] mem =
          (error, records, next) →
        elf64LoadInAddressSpace kmalloc image bias mem =
          if error ≠ 0 then (.error error, records.foldl unmapPage next)
          else (.ok (loadResult image bias low high), next)) := by
  unfold elf64LoadInAddressSpace
  cases hheader : headerValid image with
  | none => exact Or.inl ⟨_, rfl⟩
  | some header =>
    obtain rfl := headerValid_eq_some hheader
    dsimp only
    split
    · exact Or.inl ⟨_, rfl⟩
    split
    · exact Or.inl ⟨_, rfl⟩
    next hvalid =>
    split
    · exact Or.inl ⟨_, rfl⟩
    next low high pages valid hextent =>
    split
    · exact Or.inl ⟨_, rfl⟩
    split
    · exact Or.inl ⟨_, rfl⟩
    right
    refine ⟨by simpa using hvalid, low, high, pages, valid, hextent, ?_⟩
    intro error records next hload
    rw [hload]
    rfl

theorem elf64LoadInAddressSpace_loaded {kmalloc : Bool} {mem next : Memory} {loaded : ElfLoadResult}
    (h : elf64LoadInAddressSpace kmalloc image bias mem = (.ok loaded, next)) :
    elf64ValidateAtBias image bias = true ∧
      ∃ low high, loaded = loadResult image bias low high := by
  rcases elf64LoadInAddressSpace_cases kmalloc image bias mem with
    ⟨error, hcase⟩ | ⟨hvalid, low, high, pages, valid, -, hcase⟩
  · simp [h] at hcase
  · have hresult := hcase _ _ _ rfl
    rw [h] at hresult
    split at hresult
    · simp at hresult
    · exact ⟨hvalid, low, high, Except.ok.inj (Prod.mk.inj hresult).1⟩

/-- An accepted image is sound at the bias it was checked for, and one that is loaded,
as the main program or as the interpreter, is sound at the bias it is loaded at. -/
theorem validated_segments_sound (image : Image) :
    (elf64Validate image = true →
      SoundSegments image.length (defaultBias (elfHeader image))
        ((elfHeader image).entry + defaultBias (elfHeader image))
        (loadable (programHeaders image (elfHeader image)))) ∧
    ∀ (kmalloc : Bool) (bias : ℕ) (mem next : Memory) (loaded : ElfLoadResult),
      elf64LoadInAddressSpace kmalloc image bias mem = (.ok loaded, next) →
        SoundSegments image.length bias loaded.entry
          (loadable (programHeaders image (elfHeader image))) := by
  constructor
  · intro hvalid
    unfold elf64Validate at hvalid
    cases hheader : headerValid image with
    | none => simp [hheader] at hvalid
    | some header =>
      obtain rfl := headerValid_eq_some hheader
      simp only [hheader] at hvalid
      exact elf64ValidateAtBias_sound hvalid
  · intro kmalloc bias mem next loaded hload
    obtain ⟨hvalid, low, high, rfl⟩ := elf64LoadInAddressSpace_loaded hload
    exact elf64ValidateAtBias_sound hvalid

theorem validated_segments_sound_sample :
    elf64Validate sampleImage = true ∧
      SoundSegments sampleImage.length 0 0x400000
        (loadable (programHeaders sampleImage (elfHeader sampleImage))) := by
  have hvalid : elf64Validate sampleImage = true := by decide +kernel
  exact ⟨hvalid, (validated_segments_sound sampleImage).1 hvalid⟩

end NPKernel.Vm
