import NPKernel.InitialStacks

/-!
# Loading an image into an empty address space

The loader maps the pages of a segment one after the other, each with a frame of its
own, and records them.  When a page cannot be mapped the recorded pages are unmapped and
their frames released; only tables may be left.
-/

namespace NPKernel.Vm

open RadixTables

/-! ## Frames that are taken and released -/

section frames

variable {frames frames' : Frames} {frame : ℕ}

variable {other : ℕ} {labels : List ℕ}

/-- A failed allocation takes at most page zero, which is never handed out. -/
theorem allocFrame_exhausted (h : allocFrame frames = (none, frames')) (hother : other ≠ 0) :
    frames'.used other = frames.used other ∧ frames'.refs other = frames.refs other := by
  unfold allocFrame pmmAllocPage at h
  cases hfind : findFreePage frames.used MAX_TRACKED_PAGES with
  | none =>
    simp only [hfind, if_true, Prod.mk.injEq, true_and] at h
    rw [← h]
    exact ⟨rfl, rfl⟩
  | some page =>
    by_cases hzero : page * NPK_PAGE_SIZE = 0
    · have hpage : page = 0 := by
        simp only [NPK_PAGE_SIZE] at hzero
        omega
      simp only [hfind, hpage, zero_mul, if_true, Prod.mk.injEq, true_and] at h
      rw [← h]
      exact ⟨Function.update_of_ne hother .., Function.update_of_ne hother ..⟩
    · simp [hfind, hzero] at h

theorem freeFrame_refs_of_ne (hne : other ≠ frame) :
    (freeFrame frames frame).refs other = frames.refs other := by
  have hdiv : frame * NPK_PAGE_SIZE / NPK_PAGE_SIZE = frame :=
    Nat.mul_div_cancel _ (by decide)
  unfold freeFrame pmmFreePage
  dsimp only
  split
  · rfl
  split
  · simp only [hdiv]
    exact Function.update_of_ne hne ..
  · simp only [hdiv]
    exact Function.update_of_ne hne ..

theorem freeFrame_single (hused : frames.used frame = true) (hrefs : frames.refs frame = 1)
    (hlt : frame < MAX_TRACKED_PAGES) : (freeFrame frames frame).used frame = false := by
  have hdiv : frame * NPK_PAGE_SIZE / NPK_PAGE_SIZE = frame :=
    Nat.mul_div_cancel _ (by decide)
  have htracked : ¬MAX_TRACKED_PAGES ≤ frame := not_le.2 hlt
  unfold freeFrame pmmFreePage
  simp [untracked_frame, hdiv, hused, hrefs, htracked]

theorem taken_new (h : Tree.Taken allocFrame frames labels frames')
    (hframe : frame ≠ 0) (hused : frames'.used frame = true) :
    frames.used frame = true ∨ frame ∈ labels := by
  induction h with
  | none s => exact Or.inl hused
  | @exhausted s s' halloc =>
    rw [(allocFrame_exhausted halloc hframe).1] at hused
    exact Or.inl hused
  | @cons s s' s'' label labels halloc hrest ih =>
    rcases ih hused with hbefore | hmem
    · rw [(allocFrame_some halloc).2.2.2.1] at hbefore
      by_cases heq : frame = label
      · exact Or.inr (heq ▸ List.mem_cons_self)
      · rw [Function.update_of_ne heq] at hbefore
        exact Or.inl hbefore
    · exact Or.inr (List.mem_cons_of_mem _ hmem)

theorem taken_refs (h : Tree.Taken allocFrame frames labels frames')
    (hframe : frame ≠ 0) (hused : frames.used frame = true) :
    frames'.refs frame = frames.refs frame := by
  induction h with
  | none s => rfl
  | @exhausted s s' halloc => exact (allocFrame_exhausted halloc hframe).2
  | @cons s s' s'' label labels halloc hrest ih =>
    obtain ⟨-, -, hfree, hused', hrefs, -⟩ := allocFrame_some halloc
    have hne : frame ≠ label := by
      intro heq
      rw [heq, hfree] at hused
      exact absurd hused (by decide)
    have hstill : s'.used frame = true := by
      rw [hused', Function.update_of_ne hne]
      exact hused
    rw [ih hstill, hrefs, Function.update_of_ne hne]

end frames

def HoldsTable (tables : PageTree) (frame : ℕ) : Prop := ∃ path, tables.labelAt path = some frame

theorem vmmMapPageRoot_tables (frames : Frames) (tables : PageTree) (address leaf : ℕ)
    (flags : PageFlags) {frame : ℕ} (hframe : frame ≠ 0) :
    ((vmmMapPageRoot frames tables address leaf flags).2.1.used frame = true →
      frames.used frame = true ∨
        HoldsTable (vmmMapPageRoot frames tables address leaf flags).2.2 frame) ∧
    (HoldsTable tables frame →
      HoldsTable (vmmMapPageRoot frames tables address leaf flags).2.2 frame) ∧
    (frames.used frame = true →
      (vmmMapPageRoot frames tables address leaf flags).2.1.refs frame = frames.refs frame) := by
  rcases vmmMapPageRoot_cases frames tables address leaf flags with hcase | ⟨_, _, hcase⟩
  · rw [hcase]
    exact ⟨Or.inl, id, fun _ => rfl⟩
  rw [hcase]
  obtain ⟨labels, hlabels, hweight⟩ := Tree.weight_insert allocFrame (leafEntry leaf flags)
    tables (pagePath address) frames
  have hcount := hweight (fun other => if other = frame then 1 else 0) (fun _ => 0)
  unfold HoldsTable
  rw [Tree.exists_labelAt_iff, Tree.exists_labelAt_iff, hcount]
  refine ⟨?_, by omega, fun hused => taken_refs hlabels hframe hused⟩
  intro hused
  rcases taken_new hlabels hframe hused with hbefore | hmem
  · exact Or.inl hbefore
  right
  have hle : (if frame = frame then 1 else 0) ≤
      (labels.map fun other => if other = frame then 1 else 0).sum :=
    List.single_le_sum (fun _ _ => Nat.zero_le _) _ (List.mem_map_of_mem hmem)
  rw [if_pos rfl] at hle
  omega

/-! ## What the loader holds -/

/-- The pages mapped so far are the recorded ones; each has the only reference to its
frame, and no other frame has been taken than for tables. -/
structure Holding (base : Frames) (records : List ℕ) (mem : Memory) : Prop where
  secluded : Private mem
  low : ∀ va ∈ records, va < USER_LIMIT
  only : ∀ path entry, mem.process.tables.leafAt path = some entry →
    ∃ va ∈ records, path = pagePath va
  single : ∀ path entry, mem.process.tables.leafAt path = some entry →
    mem.frames.refs entry.frame = 1 ∧ entry.frame < MAX_TRACKED_PAGES
  owned : ∀ frame, frame ≠ 0 → mem.frames.used frame = true →
    base.used frame = true ∨ HoldsTable mem.process.tables frame ∨
      ∃ path entry, mem.process.tables.leafAt path = some entry ∧ entry.frame = frame

section holding

variable {base : Frames} {records : List ℕ} {mem next : Memory}

namespace Holding

variable (h : Holding base records mem)

include h

theorem unmapped
    (hleaf : ∀ path, next.process.tables.leafAt path = mem.process.tables.leafAt path)
    (hkept : ∀ path entry, mem.process.tables.leafAt path = some entry →
      next.frames.used entry.frame = true ∧
        next.frames.refs entry.frame = mem.frames.refs entry.frame)
    (htables : ∀ frame, frame ≠ 0 → HoldsTable mem.process.tables frame →
      HoldsTable next.process.tables frame)
    (hused : ∀ frame, frame ≠ 0 → next.frames.used frame = true →
      mem.frames.used frame = true ∨ HoldsTable next.process.tables frame) :
    Holding base records next := by
  constructor
  · exact h.secluded.mono hleaf fun path entry hpath => (hkept path entry hpath).1
  · exact h.low
  · intro path entry hpath
    rw [hleaf] at hpath
    exact h.only path entry hpath
  · intro path entry hpath
    rw [hleaf] at hpath
    rw [(hkept path entry hpath).2]
    exact h.single path entry hpath
  · intro frame hframe hnext
    rcases hused frame hframe hnext with hbefore | htable
    · rcases h.owned frame hframe hbefore with hbase | htable | ⟨path, entry, hpath, hentry⟩
      · exact Or.inl hbase
      · exact Or.inr (Or.inl (htables frame hframe htable))
      · exact Or.inr (Or.inr ⟨path, entry, (hleaf path).trans hpath, hentry⟩)
    · exact Or.inr (Or.inl htable)

theorem exhausted {frames : Frames} (halloc : allocFrame mem.frames = (none, frames)) :
    Holding base records (mem.setFrames frames) := by
  apply h.unmapped
  · intro path
    rfl
  · intro path entry hpath
    obtain ⟨hused, hzero⟩ := h.secluded.used path entry hpath
    have hsame := allocFrame_exhausted halloc hzero
    exact ⟨hsame.1.trans hused, hsame.2⟩
  · intro frame _ htable
    exact htable
  · intro frame hframe hused
    exact Or.inl ((allocFrame_exhausted halloc hframe).1.symm.trans hused)

variable {frame va : ℕ} {frames : Frames} {flags : PageFlags}
  (halloc : allocFrame mem.frames = (some frame, frames))

include halloc

theorem released {middle : Memory}
    (hleaf : ∀ path, middle.process.tables.leafAt path = mem.process.tables.leafAt path)
    (hframes : ∀ other, other ≠ 0 → frames.used other = true →
      middle.frames.used other = true ∧ middle.frames.refs other = frames.refs other)
    (htables : ∀ other, other ≠ 0 → HoldsTable mem.process.tables other →
      HoldsTable middle.process.tables other)
    (hused : ∀ other, other ≠ 0 → middle.frames.used other = true →
      frames.used other = true ∨ HoldsTable middle.process.tables other) :
    Holding base records (middle.setFrames (freeFrame middle.frames frame)) := by
  obtain ⟨hzero, hlt, hfree, hafter, hrefs, -⟩ := allocFrame_some halloc
  apply h.unmapped
  · exact hleaf
  · intro path entry hpath
    obtain ⟨hentry, hentry0⟩ := h.secluded.used path entry hpath
    have hne := h.secluded.fresh halloc hpath
    have hframes' : frames.used entry.frame = true := by
      rw [hafter, Function.update_of_ne hne]
      exact hentry
    obtain ⟨hmiddle, hmiddleRefs⟩ := hframes _ hentry0 hframes'
    constructor
    · exact (freeFrame_used_of_ne _ hne).trans hmiddle
    · refine (freeFrame_refs_of_ne hne).trans (hmiddleRefs.trans ?_)
      rw [hrefs, Function.update_of_ne hne]
  · exact htables
  · intro other hother hnext
    have htaken : frames.used frame = true := by
      rw [hafter, Function.update_self]
    obtain ⟨hstill, hone⟩ := hframes frame hzero htaken
    rw [hrefs, Function.update_self] at hone
    have hne : other ≠ frame := by
      intro heq
      have hgone := freeFrame_single hstill hone hlt
      rw [heq] at hnext
      exact absurd (hnext.symm.trans hgone) (by decide)
    have hmiddle : middle.frames.used other = true :=
      (freeFrame_used_of_ne _ hne).symm.trans hnext
    rcases hused other hother hmiddle with hbefore | htable
    · rw [hafter, Function.update_of_ne hne] at hbefore
      exact Or.inl hbefore
    · exact Or.inr htable

theorem discarded : Holding base records (mem.setFrames (freeFrame frames frame)) := by
  have hreleased : Holding base records
      ((mem.setFrames frames).setFrames (freeFrame (mem.setFrames frames).frames frame)) := by
    apply h.released halloc
    · intro path
      rfl
    · intro other _ hused
      exact ⟨hused, rfl⟩
    · intro other _ htable
      exact htable
    · intro other _ hused
      exact Or.inl hused
  exact hreleased

theorem refused (hmap : (mem.setFrames frames).mapPage va frame flags = (false, next)) :
    Holding base records (next.setFrames (freeFrame next.frames frame)) := by
  obtain ⟨hleaf, hused⟩ := Memory.mapPage_refused hmap
  unfold Memory.mapPage at hmap
  obtain ⟨-, rfl⟩ := Prod.mk.inj hmap
  apply h.released halloc
  · exact hleaf
  · intro other hother hbefore
    exact ⟨hused other hbefore, (vmmMapPageRoot_tables _ _ _ _ _ hother).2.2 hbefore⟩
  · intro other hother
    exact (vmmMapPageRoot_tables _ _ _ _ _ hother).2.1
  · intro other hother
    exact (vmmMapPageRoot_tables _ _ _ _ _ hother).1

theorem created (huser : flags.user = true)
    (hmap : (mem.setFrames frames).mapPage va frame flags = (true, next))
    (contents : ℕ → BitVec 8) :
    Holding base (va :: records) (next.setFrames (next.frames.store frame contents)) := by
  have hmapped := Memory.mapPage_mapped hmap
  obtain ⟨hzero, hlt, hfree, hafter, hrefs, -⟩ := allocFrame_some halloc
  have htables : ∀ {other : ℕ}, other ≠ 0 →
      (next.frames.used other = true →
        frames.used other = true ∨ HoldsTable next.process.tables other) ∧
      (HoldsTable mem.process.tables other → HoldsTable next.process.tables other) ∧
      (frames.used other = true → next.frames.refs other = frames.refs other) := by
    intro other hother
    unfold Memory.mapPage at hmap
    obtain ⟨-, rfl⟩ := Prod.mk.inj hmap
    exact vmmMapPageRoot_tables _ _ _ _ _ hother
  have hframe : frames.used frame = true := by
    rw [hafter, Function.update_self]
  have hkept : ∀ path entry, mem.process.tables.leafAt path = some entry →
      frames.used entry.frame = true ∧ frames.refs entry.frame = mem.frames.refs entry.frame := by
    intro path entry hpath
    have hne := h.secluded.fresh halloc hpath
    rw [hafter, hrefs, Function.update_of_ne hne, Function.update_of_ne hne]
    exact ⟨(h.secluded.used path entry hpath).1, rfl⟩
  constructor
  · refine Private.alter h.secluded hmapped.leafAt ?_ ?_
    · intro path old _ hpath
      exact hmapped.used _ (hkept path old hpath).1
    · rintro _ ⟨⟩
      exact ⟨⟨hmapped.used _ hframe, hzero⟩, fun path old _ hpath => h.secluded.fresh halloc hpath⟩
  · intro other hother
    rcases List.mem_cons.1 hother with rfl | hother
    · exact hmapped.user huser
    · exact h.low other hother
  · intro path entry hpath
    have hleaf := (hmapped.leafAt path).symm.trans hpath
    split at hleaf
    next heq => exact ⟨va, List.mem_cons_self, heq⟩
    · obtain ⟨other, hother, heq⟩ := h.only path entry hleaf
      exact ⟨other, List.mem_cons_of_mem _ hother, heq⟩
  · intro path entry hpath
    have hleaf := (hmapped.leafAt path).symm.trans hpath
    split at hleaf
    · rw [← Option.some.inj hleaf]
      refine ⟨((htables hzero).2.2 hframe).trans ?_, hlt⟩
      rw [hrefs, Function.update_self]
    · obtain ⟨hone, htracked⟩ := h.single path entry hleaf
      have hbefore := hkept path entry hleaf
      refine ⟨?_, htracked⟩
      exact (((htables (h.secluded.used path entry hleaf).2).2.2 hbefore.1).trans
        hbefore.2).trans hone
  · intro other hother hused
    rcases (htables hother).1 hused with hbefore | htable
    · by_cases heq : other = frame
      · right
        right
        exact ⟨pagePath va, leafEntry frame flags, (hmapped.leafAt _).trans (if_pos rfl), heq.symm⟩
      · rw [hafter, Function.update_of_ne heq] at hbefore
        rcases h.owned other hother hbefore with hbase | htable | ⟨path, entry, hpath, hentry⟩
        · exact Or.inl hbase
        · exact Or.inr (Or.inl ((htables hother).2.1 htable))
        · right
          right
          refine ⟨path, entry, (hmapped.leafAt path).trans ?_, hentry⟩
          rw [if_neg]
          · exact hpath
          · intro hpath'
            have habsent := hmapped.absent
            rw [← hpath'] at habsent
            exact absurd (hpath.symm.trans habsent) (by simp)
    · exact Or.inr (Or.inl htable)

end Holding

theorem Holding.unmapPage (h : Holding base (va :: records) mem) :
    Holding base records (unmapPage mem va) := by
  have hcanonical : canonical va = true := canonical_of_lt (h.low va List.mem_cons_self)
  have hlow : ∀ other ∈ records, other < USER_LIMIT := by
    intro other hother
    exact h.low other (List.mem_cons_of_mem _ hother)
  unfold NPKernel.Vm.unmapPage vmmUnmapPageRoot
  simp only [hcanonical, Bool.not_true, Bool.false_eq_true, if_false]
  cases hold : mem.process.tables.leafAt (pagePath va) with
  | none =>
    refine ⟨h.secluded, hlow, ?_, h.single, h.owned⟩
    intro path entry hpath
    obtain ⟨other, hother, heq⟩ := h.only path entry hpath
    rcases List.mem_cons.1 hother with rfl | hother
    · rw [heq, hold] at hpath
      exact absurd hpath (by simp)
    · exact ⟨other, hother, heq⟩
  | some old =>
    obtain ⟨hused, hzero⟩ := h.secluded.used _ old hold
    obtain ⟨hone, hlt⟩ := h.single _ old hold
    have hleaf := alter_leafAt hold (fun _ => none) (pagePath_ne_nil va)
    have hfreed : freeUnlessZero mem.frames old.frame = freeFrame mem.frames old.frame := by
      rw [freeUnlessZero, if_pos hzero]
    dsimp only
    rw [hfreed]
    have hremaining : ∀ path entry,
        (mem.process.tables.alter (fun _ => none) (pagePath va)).leafAt path = some entry →
        path ≠ pagePath va ∧ mem.process.tables.leafAt path = some entry := by
      intro path entry hpath
      rw [hleaf] at hpath
      split at hpath
      · simp at hpath
      next hne => exact ⟨hne, hpath⟩
    constructor
    · refine Private.alter h.secluded hleaf (fun path entry hne hpath => ?_) (by simp)
      exact (freeFrame_used_of_ne _ (h.secluded.frame_ne hold hne hpath)).trans
        (h.secluded.used path entry hpath).1
    · exact hlow
    · intro path entry hpath
      obtain ⟨hne, hpath⟩ := hremaining path entry hpath
      obtain ⟨other, hmem, heq⟩ := h.only path entry hpath
      rcases List.mem_cons.1 hmem with rfl | hmem
      · exact absurd heq hne
      · exact ⟨other, hmem, heq⟩
    · intro path entry hpath
      obtain ⟨hne, hpath⟩ := hremaining path entry hpath
      refine ⟨?_, (h.single path entry hpath).2⟩
      exact (freeFrame_refs_of_ne (h.secluded.frame_ne hold hne hpath)).trans
        (h.single path entry hpath).1
    · intro frame hframe hafter
      have hne : frame ≠ old.frame := by
        intro heq
        have hgone := freeFrame_single hused hone hlt
        rw [heq] at hafter
        exact absurd (hafter.symm.trans hgone) (by decide)
      have hbefore : mem.frames.used frame = true :=
        (freeFrame_used_of_ne _ hne).symm.trans hafter
      rcases h.owned frame hframe hbefore with hbase | ⟨path, hlabel⟩ | ⟨path, entry, hpath, hentry⟩
      · exact Or.inl hbase
      · right
        left
        exact ⟨path, (Tree.labelAt_alter _ _ _ _).trans hlabel⟩
      · right
        right
        refine ⟨path, entry, (hleaf path).trans ?_, hentry⟩
        rw [if_neg]
        · exact hpath
        · intro heq
          rw [heq, hold] at hpath
          rw [← Option.some.inj hpath] at hentry
          exact hne hentry.symm

theorem Holding.rollBack (h : Holding base records mem) :
    Holding base [] (records.foldl NPKernel.Vm.unmapPage mem) := by
  induction records generalizing mem with
  | nil => exact h
  | cons va rest ih => exact ih h.unmapPage

end holding

/-! ## The pages of the segments -/

/-- The byte of a segment at an address of one of its pages: from the file, or zero. -/
def segmentByte (image : Image) (ph : Elf64ProgramHeader) (bias address : ℕ) : BitVec 8 :=
  if ph.vaddr + bias ≤ address ∧ address < ph.vaddr + bias + ph.filesz then
    imageByte image (ph.offset + (address - (ph.vaddr + bias)))
  else 0

structure LoadedPage (image : Image) (ph : Elf64ProgramHeader) (bias page : ℕ) (mem : Memory)
    (entry : Pte) : Prop where
  mapped : mem.process.tables.leafAt (pagePath (page * NPK_PAGE_SIZE)) = some entry
  user : entry.user = true
  write : entry.write = hasBit ph.flags PF_W
  nx : entry.nx = !hasBit ph.flags PF_X
  bytes : ∀ offset < NPK_PAGE_SIZE, mem.frames.bytes entry.frame offset =
    segmentByte image ph bias (page * NPK_PAGE_SIZE + offset)

theorem LoadedPage.kept {image : Image} {ph : Elf64ProgramHeader} {bias page : ℕ}
    {mem next : Memory} {entry : Pte} (h : LoadedPage image ph bias page mem entry)
    (hkept : Kept mem next) : LoadedPage image ph bias page next entry := by
  constructor
  · exact hkept.leafAt _ entry h.mapped
  · exact h.user
  · exact h.write
  · exact h.nx
  · intro offset hoffset
    rw [hkept.bytes _ entry h.mapped]
    exact h.bytes offset hoffset

/-- The copy of a page never leaves the file part of its segment. -/
theorem segmentPage_eq {image : Image} {ph : Elf64ProgramHeader} {bias : ℕ}
    (start va : ℕ) (hstart : start = ph.vaddr + bias) :
    ∃ contents, segmentPage image ph bias start va = some contents ∧
      ∀ offset < NPK_PAGE_SIZE, contents offset = segmentByte image ph bias (va + offset) := by
  unfold segmentPage segmentByte
  dsimp only
  rw [hstart]
  split
  next hcopy =>
    rw [if_neg]
    · refine ⟨_, rfl, ?_⟩
      intro offset hoffset
      by_cases hinside : ph.vaddr + bias ≤ va + offset ∧ va + offset < ph.vaddr + bias + ph.filesz
      · rw [if_pos hinside, if_pos (by omega)]
        congr 1
        omega
      · rw [if_neg hinside, if_neg (by omega)]
    · simp only [Bool.or_eq_true, decide_eq_true_eq, not_or, not_lt]
      omega
  next hcopy =>
    refine ⟨_, rfl, ?_⟩
    intro offset hoffset
    rw [if_neg]
    omega

section loading

variable {base : Frames} {image : Image} {bias limit : ℕ} {records records' : List ℕ}
  {mem next : Memory} {error : ℤ}

structure PagesLoaded (base : Frames) (image : Image) (ph : Elf64ProgramHeader)
    (bias first count : ℕ) (records : List ℕ) (mem : Memory) (error : ℤ) (records' : List ℕ)
    (next : Memory) : Prop where
  holding : Holding base records' next
  kept : Kept mem next
  vmas : next.process.vmas = mem.process.vmas
  recorded : ∀ va ∈ records', va ∈ records ∨
    ∃ page, first ≤ page ∧ page < first + count ∧ va = page * NPK_PAGE_SIZE
  loaded : error = 0 → ∀ page, first ≤ page → page < first + count →
    ∃ entry, LoadedPage image ph bias page next entry

variable {ph : Elf64ProgramHeader}

theorem loadPages_loaded {start first count : ℕ}
    (hstart : start = ph.vaddr + bias) (h : Holding base records mem)
    (hload : loadPages image ph bias start limit count (first * NPK_PAGE_SIZE) records mem =
      (error, records', next)) :
    PagesLoaded base image ph bias first count records mem error records' next := by
  induction count generalizing first records mem with
  | zero =>
    simp only [loadPages, Prod.mk.injEq] at hload
    obtain ⟨rfl, rfl, rfl⟩ := hload
    refine ⟨h, Kept.refl mem, rfl, fun va hva => Or.inl hva, ?_⟩
    intro _ page hlow hhigh
    omega
  | succ count ih =>
    have hfailed : ∀ {last : Memory}, Holding base records last → Kept mem last →
        last.process.vmas = mem.process.vmas →
        PagesLoaded base image ph bias first (count + 1) records mem ELF_ENOMEM records last := by
      intro last hlast hkept hvmas
      refine ⟨hlast, hkept, hvmas, fun va hva => Or.inl hva, ?_⟩
      intro hzero
      exact absurd hzero (by decide)
    rw [loadPages] at hload
    have hbytes := allocFrame_bytes mem.frames
    split at hload
    next frames halloc =>
      cases hload
      rw [halloc] at hbytes
      exact hfailed (h.exhausted halloc) (.of_bytes (fun _ => rfl) hbytes) rfl
    next frame frames halloc =>
      rw [halloc] at hbytes
      dsimp only at hload
      split at hload
      · cases hload
        exact hfailed (h.discarded halloc)
          (.of_bytes (fun _ => rfl) (freeFrame_bytes.trans hbytes)) rfl
      · split at hload
        next middle hmap =>
          cases hload
          exact hfailed (h.refused halloc hmap) (.of_bytes (Memory.mapPage_refused hmap).1
            (freeFrame_bytes.trans ((Memory.mapPage_bytes hmap).trans hbytes)))
            (Memory.mapPage_vmas hmap :)
        next middle hmap =>
          obtain ⟨contents, hcontents, hbyte⟩ :=
            @segmentPage_eq image ph bias start (first * NPK_PAGE_SIZE) hstart
          rw [hcontents] at hload
          dsimp only at hload
          rw [← Nat.succ_mul] at hload
          have hcreated := h.created halloc rfl hmap contents
          have hkept := Kept.mapped h.secluded halloc hmap contents
          have hrest := ih hcreated hload
          refine ⟨hrest.holding, hkept.trans hrest.kept, ?_, ?_, ?_⟩
          · exact hrest.vmas.trans (Memory.mapPage_vmas hmap :)
          · intro va hva
            rcases hrest.recorded va hva with hva | ⟨page, hlow, hhigh, rfl⟩
            · rcases List.mem_cons.1 hva with rfl | hva
              · exact Or.inr ⟨first, le_rfl, by omega, rfl⟩
              · exact Or.inl hva
            · exact Or.inr ⟨page, by omega, by omega, rfl⟩
          · intro hzero page hlow hhigh
            by_cases hfirst : page = first
            · have hloaded : LoadedPage image ph bias first
                  (middle.setFrames (middle.frames.store frame contents))
                  (leafEntry frame (segmentFlags ph)) := by
                constructor
                · exact ((Memory.mapPage_mapped hmap).leafAt _).trans (if_pos rfl)
                · rfl
                · rfl
                · rfl
                · intro offset hoffset
                  simp only [Memory.setFrames, Frames.store_bytes, leafEntry,
                    Function.update_self]
                  exact hbyte offset hoffset
              rw [hfirst]
              exact ⟨_, hloaded.kept hrest.kept⟩
            · exact hrest.loaded hzero page (by omega) (by omega)

theorem SegmentOk.pagesBetween {imageSize : ℕ} {range : SegmentRange}
    (h : SegmentOk ph imageSize bias range) :
    range.pageStart = (ph.vaddr + bias) / NPK_PAGE_SIZE * NPK_PAGE_SIZE ∧
      ∀ page, page ∈ ph.pages bias ↔ (ph.vaddr + bias) / NPK_PAGE_SIZE ≤ page ∧
        page < (ph.vaddr + bias) / NPK_PAGE_SIZE +
          NPKernel.Vm.pagesBetween range.pageStart range.pageEnd := by
  refine ⟨h.pageStart, ?_⟩
  intro page
  have hstart := h.pageStart
  have hend := h.pageEnd
  rw [Elf64ProgramHeader.pages, Finset.mem_Ico, NPKernel.Vm.pagesBetween]
  simp only [NPK_PAGE_SIZE] at hstart hend ⊢
  omega

theorem loadable_cons (ph : Elf64ProgramHeader) (rest : List Elf64ProgramHeader) :
    loadable (ph :: rest) = if ph.kind = PT_LOAD then ph :: loadable rest else loadable rest := by
  unfold loadable
  by_cases hkind : ph.kind = PT_LOAD <;> simp [hkind]

structure SegmentsLoaded (base : Frames) (image : Image) (bias : ℕ)
    (segments : List Elf64ProgramHeader) (records : List ℕ) (mem : Memory) (error : ℤ)
    (records' : List ℕ) (next : Memory) : Prop where
  holding : Holding base records' next
  kept : Kept mem next
  vmas : next.process.vmas = mem.process.vmas
  recorded : ∀ va ∈ records', va ∈ records ∨
    ∃ ph ∈ segments, ∃ page ∈ ph.pages bias, va = page * NPK_PAGE_SIZE
  loaded : error = 0 → ∀ ph ∈ segments, ∀ page ∈ ph.pages bias,
    ∃ entry, LoadedPage image ph bias page next entry

theorem loadSegments_loaded {programs : List Elf64ProgramHeader} (h : Holding base records mem)
    (hload : loadSegments image bias limit programs records mem = (error, records', next)) :
    SegmentsLoaded base image bias (loadable programs) records mem error records' next := by
  induction programs generalizing records mem with
  | nil =>
    simp only [loadSegments, Prod.mk.injEq] at hload
    obtain ⟨rfl, rfl, rfl⟩ := hload
    exact ⟨h, Kept.refl mem, rfl, fun va hva => Or.inl hva, by simp [loadable]⟩
  | cons ph rest ih =>
    rw [loadSegments] at hload
    rw [loadable_cons]
    by_cases hkind : ph.kind = PT_LOAD
    · rw [if_neg (by simpa using hkind)] at hload
      rw [if_pos hkind]
      split at hload
      · simp only [Prod.mk.injEq] at hload
        obtain ⟨rfl, rfl, rfl⟩ := hload
        refine ⟨h, Kept.refl mem, rfl, fun va hva => Or.inl hva, ?_⟩
        intro hzero
        exact absurd hzero (by decide)
      next range hrange =>
        have hok := segmentRangeValid_ok hrange
        obtain ⟨hpageStart, hpages⟩ := hok.pagesBetween
        generalize hcount : pagesBetween range.pageStart range.pageEnd = count at hload hpages
        rw [hpageStart] at hload
        split at hload
        next code found middle hsegment =>
        have hfirst := loadPages_loaded hok.start h hsegment
        split at hload
        next hcode =>
          cases hload
          refine ⟨hfirst.holding, hfirst.kept, hfirst.vmas, ?_, ?_⟩
          · intro va hva
            rcases hfirst.recorded va hva with hva | ⟨page, hlow, hhigh, rfl⟩
            · exact Or.inl hva
            · exact Or.inr ⟨ph, List.mem_cons_self, page, (hpages page).2 ⟨hlow, hhigh⟩, rfl⟩
          · intro hzero
            exact absurd hzero hcode
        next hcode =>
          have hrest := ih hfirst.holding hload
          refine ⟨hrest.holding, hfirst.kept.trans hrest.kept,
            hrest.vmas.trans hfirst.vmas, ?_, ?_⟩
          · intro va hva
            rcases hrest.recorded va hva with hva | ⟨other, hother, page, hpage, rfl⟩
            · rcases hfirst.recorded va hva with hva | ⟨page, hlow, hhigh, rfl⟩
              · exact Or.inl hva
              · exact Or.inr ⟨ph, List.mem_cons_self, page, (hpages page).2 ⟨hlow, hhigh⟩, rfl⟩
            · exact Or.inr ⟨other, List.mem_cons_of_mem _ hother, page, hpage, rfl⟩
          · intro hzero other hother page hpage
            rcases List.mem_cons.1 hother with rfl | hother
            · obtain ⟨hlow, hhigh⟩ := (hpages page).1 hpage
              obtain ⟨entry, hentry⟩ :=
                hfirst.loaded (not_not.1 hcode) page hlow hhigh
              exact ⟨entry, hentry.kept hrest.kept⟩
            · exact hrest.loaded hzero other hother page hpage
    · rw [if_pos (by simpa using hkind)] at hload
      rw [if_neg hkind]
      exact ih h hload

theorem Holding.start (hempty : ∀ path, mem.process.tables.leafAt path = none) :
    Holding mem.frames [] mem := by
  have hnone : ∀ path entry, mem.process.tables.leafAt path ≠ some entry := by
    intro path entry
    rw [hempty]
    simp
  constructor
  · constructor
    · intro path entry hpath
      exact absurd hpath (hnone path entry)
    · intro path other entry entry' hpath
      exact absurd hpath (hnone path entry)
  · simp
  · intro path entry hpath
    exact absurd hpath (hnone path entry)
  · intro path entry hpath
    exact absurd hpath (hnone path entry)
  · intro frame _ hused
    exact Or.inl hused

theorem Holding.no_page (h : Holding base [] mem) (path : List (Fin 512)) :
    mem.process.tables.leafAt path = none := by
  cases hleaf : mem.process.tables.leafAt path with
  | none => rfl
  | some entry =>
    obtain ⟨va, hva, -⟩ := h.only path entry hleaf
    simp at hva

end loading

/-! ## The areas of the segments -/

/-- An area that is one segment's, with its permissions. -/
structure Vma.Covers (vma : Vma) (ph : Elf64ProgramHeader) (bias : ℕ) : Prop where
  contains : ∀ address, vma.contains address = true ↔ address / NPK_PAGE_SIZE ∈ ph.pages bias
  read : hasBit vma.protection NPK_PROT_READ = hasBit ph.flags PF_R
  write : hasBit vma.protection NPK_PROT_WRITE = hasBit ph.flags PF_W
  exec : hasBit vma.protection NPK_PROT_EXEC = hasBit ph.flags PF_X

theorem segmentProtection_bits (ph : Elf64ProgramHeader) :
    hasBit (segmentProtection ph) NPK_PROT_READ = hasBit ph.flags PF_R ∧
      hasBit (segmentProtection ph) NPK_PROT_WRITE = hasBit ph.flags PF_W ∧
      hasBit (segmentProtection ph) NPK_PROT_EXEC = hasBit ph.flags PF_X ∧
      hasBit (segmentProtection ph) (~~~7) = false := by
  unfold segmentProtection
  cases hasBit ph.flags PF_R <;> cases hasBit ph.flags PF_W <;> cases hasBit ph.flags PF_X <;>
    decide

section registering

variable {image : Image} {bias : ℕ} {mem next : Memory}

def segmentArea (ph : Elf64ProgramHeader) (bias : ℕ) : Vma :=
  Vma.plain ((ph.vaddr + bias) / NPK_PAGE_SIZE * NPK_PAGE_SIZE)
    ((ph.vaddr + bias + ph.memsz + NPK_PAGE_SIZE - 1) / NPK_PAGE_SIZE * NPK_PAGE_SIZE -
      (ph.vaddr + bias) / NPK_PAGE_SIZE * NPK_PAGE_SIZE)
    (segmentProtection ph) (NPK_MAP_PRIVATE ||| NPK_MAP_ANONYMOUS)

theorem segmentArea_covers (ph : Elf64ProgramHeader) (bias : ℕ) :
    (segmentArea ph bias).Covers ph bias := by
  obtain ⟨hread, hwrite, hexec, -⟩ := segmentProtection_bits ph
  refine ⟨?_, hread, hwrite, hexec⟩
  intro address
  rw [Vma.contains_iff, Elf64ProgramHeader.pages, Finset.mem_Ico]
  simp only [segmentArea, Vma.plain, NPK_PAGE_SIZE]
  omega

variable {imageSize requests : ℕ} {programs : List Elf64ProgramHeader} {kmalloc : ℕ → Bool}

theorem segmentArea_apart {first second : Elf64ProgramHeader}
    {range range' : SegmentRange} (hfirst : SegmentOk first imageSize bias range)
    (hsecond : SegmentOk second imageSize bias range')
    (h : Disjoint (first.pages bias) (second.pages bias)) :
    (segmentArea first bias).Apart (segmentArea second bias) := by
  have hone := hfirst.nonempty
  have htwo := hsecond.nonempty
  by_contra hmeet
  simp only [Vma.Apart, IntervalLists.Apart, not_or, not_le, segmentArea, Vma.plain,
    NPK_PAGE_SIZE] at hmeet
  -- the later of the two first pages belongs to both
  have hboth : max ((first.vaddr + bias) / NPK_PAGE_SIZE) ((second.vaddr + bias) / NPK_PAGE_SIZE) ∈
      first.pages bias ∧
      max ((first.vaddr + bias) / NPK_PAGE_SIZE) ((second.vaddr + bias) / NPK_PAGE_SIZE) ∈
        second.pages bias := by
    simp only [Elf64ProgramHeader.pages, Finset.mem_Ico, NPK_PAGE_SIZE]
    omega
  exact Finset.disjoint_left.1 h hboth.1 hboth.2

theorem addOverflow_eq_false {a b : ℕ} (h : a + b < 2 ^ 64) : addOverflow a b = false := by
  apply decide_eq_false
  simp only [UINT64_MAX]
  omega

theorem registerSegments_load {ph : Elf64ProgramHeader} {rest : List Elf64ProgramHeader}
    {imageSize requests : ℕ} {range : SegmentRange} (kmalloc : ℕ → Bool)
    (hkind : ph.kind = PT_LOAD) (hok : SegmentOk ph imageSize bias range) (mem : Memory) :
    ((registerSegments kmalloc bias (ph :: rest) requests mem).1 = false ∧
      (kmalloc requests = false ∨ ∃ vma ∈ mem.process.vmas, ¬(segmentArea ph bias).Apart vma)) ∨
    registerSegments kmalloc bias (ph :: rest) requests mem =
      registerSegments kmalloc bias rest (requests + 1)
        (mem.setVmas (segmentArea ph bias :: mem.process.vmas)) := by
  have hnonempty := hok.nonempty
  have hhigh := hok.high
  have hlow := hok.low
  rw [registerSegments, if_neg (by simp [hkind, hnonempty.ne'])]
  have hfits : (addOverflow ph.vaddr bias || addOverflow (ph.vaddr + bias) ph.memsz) = false := by
    simp only [NPK_USER_MAX] at hhigh
    rw [addOverflow_eq_false (by omega), addOverflow_eq_false (by omega)]
    rfl
  rw [hfits]
  simp only [Bool.false_eq_true, if_false]
  have hup : pageAlignUp (ph.vaddr + bias + ph.memsz) =
      some ((ph.vaddr + bias + ph.memsz + NPK_PAGE_SIZE - 1) / NPK_PAGE_SIZE * NPK_PAGE_SIZE) := by
    rw [pageAlignUp, if_neg]
    simp only [NPK_USER_MAX, NPK_PAGE_SIZE, UINT64_MAX] at hhigh ⊢
    omega
  rw [hup]
  dsimp only
  generalize hstart : pageAlign (ph.vaddr + bias) = start
  generalize hstop :
    (ph.vaddr + bias + ph.memsz + NPK_PAGE_SIZE - 1) / NPK_PAGE_SIZE * NPK_PAGE_SIZE = stop
  have hbounds : NPK_USER_MIN ≤ start ∧ start < stop ∧ stop ≤ NPK_USER_MAX ∧
      start % NPK_PAGE_SIZE = 0 ∧ stop % NPK_PAGE_SIZE = 0 := by
    rw [← hstart, ← hstop]
    simp only [pageAlign, NPK_USER_MIN, NPK_USER_MAX, NPK_PAGE_SIZE] at hlow hhigh ⊢
    omega
  have harea : segmentArea ph bias = Vma.plain start (stop - start) (segmentProtection ph)
      (NPK_MAP_PRIVATE ||| NPK_MAP_ANONYMOUS) := by
    rw [← hstart, ← hstop]
    rfl
  have hsize : pageAlignUp (stop - start) = some (stop - start) := by
    rw [pageAlignUp, if_neg]
    · apply congrArg some
      simp only [NPK_PAGE_SIZE] at hbounds ⊢
      omega
    · simp only [NPK_USER_MAX, NPK_PAGE_SIZE, UINT64_MAX] at hbounds ⊢
      omega
  obtain ⟨-, hwrite, hexec, hother⟩ := segmentProtection_bits ph
  have hexclusive : writeAndExec (segmentProtection ph) = false := by
    rw [writeAndExec, hwrite, hexec, Bool.eq_false_iff, ne_eq, Bool.and_eq_true]
    exact hok.exclusive
  rw [if_neg (by omega)]
  cases hfree : overlaps mem.process.vmas start (start + (stop - start)) with
  | true =>
    left
    have hrefused : vmReserveRange (kmalloc requests) mem start (stop - start)
        (segmentProtection ph) (NPK_MAP_PRIVATE ||| NPK_MAP_ANONYMOUS) = (VM_EINVAL, mem) := by
      rw [vmReserveRange, hsize]
      simp [hfree]
    rw [hrefused]
    refine ⟨rfl, Or.inr ?_⟩
    obtain ⟨vma, hvma, hmeet⟩ := List.any_eq_true.1 hfree
    refine ⟨vma, hvma, ?_⟩
    rw [harea]
    simp only [Bool.and_eq_true, decide_eq_true_eq] at hmeet
    simp only [Vma.Apart, IntervalLists.Apart, Vma.plain]
    omega
  | false =>
    have hchecks : (decide (start < NPK_USER_MIN) || decide (start % NPK_PAGE_SIZE ≠ 0) ||
        decide (stop - start = 0) || decide (stop - start = 0) ||
        addOverflow start (stop - start) ||
        decide (NPK_USER_MAX < start + (stop - start)) ||
        hasBit (segmentProtection ph) (~~~7) || writeAndExec (segmentProtection ph) ||
        overlaps mem.process.vmas start (start + (stop - start))) = false := by
      have hfits' : addOverflow start (stop - start) = false := by
        apply addOverflow_eq_false
        simp only [NPK_USER_MAX] at hbounds
        omega
      simp only [Bool.or_eq_false_iff, decide_eq_false_iff_not, hother, hexclusive, hfree,
        and_true, hfits']
      omega
    rw [vmReserveRange, hsize]
    simp only [hchecks, Bool.false_eq_true, if_false]
    cases hmalloc : kmalloc requests with
    | false =>
      left
      exact ⟨rfl, Or.inl rfl⟩
    | true =>
      right
      rw [harea]
      rfl

theorem registerSegments_areas
    (hok : ∀ ph ∈ loadable programs, ∃ range, SegmentOk ph imageSize bias range)
    (h : registerSegments kmalloc bias programs requests mem = (true, next)) :
    next = mem.setVmas (((loadable programs).map fun ph => segmentArea ph bias).reverse ++
      mem.process.vmas) := by
  induction programs generalizing requests mem with
  | nil =>
    cases h
    rfl
  | cons ph rest ih =>
    rw [loadable_cons] at hok ⊢
    by_cases hkind : ph.kind = PT_LOAD
    · rw [if_pos hkind] at hok ⊢
      obtain ⟨range, hrange⟩ := hok ph List.mem_cons_self
      rcases @registerSegments_load bias ph rest imageSize requests range kmalloc hkind hrange mem
        with ⟨hfalse, -⟩ | heq
      · simp [h] at hfalse
      · rw [heq] at h
        rw [ih (fun other hother => hok other (List.mem_cons_of_mem _ hother)) h]
        simp [Memory.setVmas]
    · rw [if_neg hkind] at hok ⊢
      rw [registerSegments, if_pos (by simp [hkind])] at h
      exact ih hok h

theorem registerSegments_succeeds (hkmalloc : ∀ i, kmalloc i = true)
    (hok : ∀ ph ∈ loadable programs, ∃ range, SegmentOk ph imageSize bias range)
    (hapart : (loadable programs).Pairwise fun first second =>
      Disjoint (first.pages bias) (second.pages bias))
    (hfree : ∀ ph ∈ loadable programs, ∀ vma ∈ mem.process.vmas, (segmentArea ph bias).Apart vma) :
    ∃ last, registerSegments kmalloc bias programs requests mem = (true, last) := by
  induction programs generalizing requests mem with
  | nil => exact ⟨mem, rfl⟩
  | cons ph rest ih =>
    rw [loadable_cons] at hok hapart hfree
    by_cases hkind : ph.kind = PT_LOAD
    · rw [if_pos hkind] at hok hapart hfree
      rw [List.pairwise_cons] at hapart
      obtain ⟨range, hrange⟩ := hok ph List.mem_cons_self
      rcases @registerSegments_load bias ph rest imageSize requests range kmalloc hkind hrange mem
        with ⟨-, hfailed | ⟨vma, hvma, hmeet⟩⟩ | heq
      · rw [hkmalloc] at hfailed
        exact absurd hfailed (by decide)
      · exact absurd (hfree ph List.mem_cons_self vma hvma) hmeet
      · rw [heq]
        apply ih
        · intro other hother
          exact hok other (List.mem_cons_of_mem _ hother)
        · exact hapart.2
        · intro other hother vma hvma
          rcases List.mem_cons.1 hvma with rfl | hvma
          · obtain ⟨range', hrange'⟩ := hok other (List.mem_cons_of_mem _ hother)
            exact segmentArea_apart hrange' hrange (hapart.1 other hother).symm
          · exact hfree other (List.mem_cons_of_mem _ hother) vma hvma
    · rw [if_neg hkind] at hok hapart hfree
      rw [registerSegments, if_pos (by simp [hkind])]
      exact ih hok hapart hfree

end registering

/-! ## Exact loading -/

/-- The pages of the address space are those of the segments. -/
structure ExactPages (image : Image) (bias : ℕ) (segments : List Elf64ProgramHeader)
    (mem : Memory) : Prop where
  loaded : ∀ ph ∈ segments, ∀ page ∈ ph.pages bias, ∃ entry, LoadedPage image ph bias page mem entry
  only : ∀ path entry, mem.process.tables.leafAt path = some entry →
    ∃ ph ∈ segments, ∃ page ∈ ph.pages bias, path = pagePath (page * NPK_PAGE_SIZE)

/-- The areas are those of the segments. -/
structure ExactAreas (bias : ℕ) (segments : List Elf64ProgramHeader) (vmas : List Vma) :
    Prop where
  covered : ∀ ph ∈ segments, ∃ vma ∈ vmas, vma.Covers ph bias
  only : ∀ vma ∈ vmas, ∃ ph ∈ segments, vma.Covers ph bias

/-- Loading into an empty address space maps the segments exactly and the areas registered
then are theirs; a load that fails leaves no page and no frame but those of tables. -/
theorem elf_loading_exact (kmalloc : Bool) (image : Image) (bias : ℕ) (mem : Memory)
    (hpages : ∀ path, mem.process.tables.leafAt path = none) (hareas : mem.process.vmas = []) :
    (∀ loaded next, elf64LoadInAddressSpace kmalloc image bias mem = (.ok loaded, next) →
      ExactPages image bias (loadable (programHeaders image (elfHeader image))) next ∧
      (∀ answers last, registerExecVmas answers image bias next = (true, last) →
        last.process.tables = next.process.tables ∧ last.frames = next.frames ∧
        ExactAreas bias (loadable (programHeaders image (elfHeader image))) last.process.vmas) ∧
      ∀ answers : ℕ → Bool, (∀ i, answers i = true) →
        ∃ last, registerExecVmas answers image bias next = (true, last)) ∧
    ∀ error next, elf64LoadInAddressSpace kmalloc image bias mem = (.error error, next) →
      (∀ path, next.process.tables.leafAt path = none) ∧
      ∀ frame, frame ≠ 0 → next.frames.used frame = true →
        mem.frames.used frame = true ∨ HoldsTable next.process.tables frame := by
  have hstart := Holding.start hpages
  have hempty : ∀ {next : Memory}, Holding mem.frames [] next →
      (∀ path, next.process.tables.leafAt path = none) ∧
        ∀ frame, frame ≠ 0 → next.frames.used frame = true →
          mem.frames.used frame = true ∨ HoldsTable next.process.tables frame := by
    intro next h
    refine ⟨h.no_page, ?_⟩
    intro frame hframe hused
    rcases h.owned frame hframe hused with hbase | htable | ⟨path, entry, hpath, -⟩
    · exact Or.inl hbase
    · exact Or.inr htable
    · rw [h.no_page] at hpath
      exact absurd hpath (by simp)
  rcases elf64LoadInAddressSpace_cases kmalloc image bias mem with
    ⟨code, hcase⟩ | ⟨hvalid, low, high, pages, valid, -, hcase⟩
  · constructor
    · intro loaded next hload
      rw [hcase] at hload
      exact absurd (Prod.mk.inj hload).1 (by simp)
    · intro error next hload
      rw [hcase] at hload
      cases hload
      exact hempty hstart
  · obtain ⟨seen, hchecked, hearlier, -⟩ := elf64ValidateAtBias_checked hvalid
    have hok : ∀ ph ∈ loadable (programHeaders image (elfHeader image)),
        ∃ range, SegmentOk ph image.length bias range := by
      intro ph hph
      rw [← hearlier] at hph
      obtain ⟨range, hrange⟩ := hchecked.valid ph hph
      exact ⟨range, segmentRangeValid_ok hrange⟩
    have hapart := hchecked.apart
    rw [hearlier] at hapart
    generalize hsegments : loadSegments image bias pages
      (programHeaders image (elfHeader image)) [] mem = result
    obtain ⟨code, records, reached⟩ := result
    have hdone := loadSegments_loaded hstart hsegments
    rw [hcase code records reached hsegments]
    constructor
    · intro loaded next hload
      split at hload
      · simp at hload
      next hcode =>
      cases hload
      refine ⟨⟨hdone.loaded (not_not.1 hcode), ?_⟩, ?_, ?_⟩
      · intro path entry hpath
        obtain ⟨va, hva, hpath'⟩ := hdone.holding.only path entry hpath
        rcases hdone.recorded va hva with hnone | ⟨ph, hph, page, hpage, rfl⟩
        · simp at hnone
        · exact ⟨ph, hph, page, hpage, hpath'⟩
      · intro answers last hregister
        have hlast := registerSegments_areas hok hregister
        rw [hdone.vmas, hareas, List.append_nil] at hlast
        rw [hlast]
        refine ⟨rfl, rfl, ?_⟩
        constructor
        · intro ph hph
          refine ⟨segmentArea ph bias, ?_, segmentArea_covers ph bias⟩
          exact List.mem_reverse.2 (List.mem_map_of_mem hph)
        · intro vma hvma
          obtain ⟨ph, hph, rfl⟩ := List.mem_map.1 (List.mem_reverse.1 hvma)
          exact ⟨ph, hph, segmentArea_covers ph bias⟩
      · intro answers hanswers
        apply registerSegments_succeeds hanswers hok hapart
        rw [hdone.vmas, hareas]
        simp
    · intro error next hload
      split at hload
      · cases hload
        exact hempty hdone.holding.rollBack
      · simp at hload

theorem elf_loading_exact_sample :
    ∃ mem next loaded, elf64LoadInAddressSpace true sampleImage 0 mem = (.ok loaded, next) ∧
      ExactPages sampleImage 0 (loadable (programHeaders sampleImage (elfHeader sampleImage)))
        next := by
  have hloads : ((elf64LoadInAddressSpace true sampleImage 0
      { frames := sampleBoot.frames, process := emptyProcess 2 (.table 1 fun _ => .absent) }).1.map
        ElfLoadResult.entry).toOption = some 0x400000 := by
    decide +kernel
  generalize hresult : elf64LoadInAddressSpace true sampleImage 0
      { frames := sampleBoot.frames
        process := emptyProcess 2 (.table 1 fun _ => .absent) } = result at hloads
  obtain ⟨outcome, next⟩ := result
  cases outcome with
  | error code => exact absurd hloads (by simp [Except.map, Except.toOption])
  | ok loaded =>
    refine ⟨_, next, loaded, hresult, ?_⟩
    refine ((elf_loading_exact true sampleImage 0 _ ?_ rfl).1 loaded next hresult).1
    intro path
    cases path <;> simp [emptyProcess]

end NPKernel.Vm
