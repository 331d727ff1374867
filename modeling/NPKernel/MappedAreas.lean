import NPKernel.AreaChanges
import NPKernel.ProcessMemory

/-!
# The area that a mapping call makes

A mapping call that succeeds puts one area in front of the list, and what that area
is backed by is known exactly.  A call that fails leaves the list as it was, unless
the flags passed by the caller keep the kernel from taking the new area back.
-/

namespace NPKernel.Vm

open IntervalLists

/-- The areas after a mapping call, given what is known of the area it makes. -/
inductive MapOutcome (makes : Vma → Prop) (vmas : List Vma) : Except ℤ ℕ → List Vma → Prop
  | failed (code : ℤ) : MapOutcome makes vmas (.error code) vmas
  | left (code : ℤ) (vma : Vma) (hok : vma.Ok) (hfree : ∀ other ∈ vmas, vma.Apart other)
      (hheap : hasBit vma.flags NPK_MAP_HEAP = true) :
      MapOutcome makes vmas (.error code) (vma :: vmas)
  | made (vma : Vma) (hok : vma.Ok) (hfree : ∀ other ∈ vmas, vma.Apart other)
      (hmakes : makes vma) : MapOutcome makes vmas (.ok vma.start) (vma :: vmas)

theorem vmUnmap_front (answers : Answers) {mem : Memory} {vma : Vma} {vmas : List Vma}
    {length : ℕ} (hvmas : mem.process.vmas = vma :: vmas) (hok : vma.Ok)
    (hlength : pageAlignUp length = some (vma.stop - vma.start)) :
    (vmUnmap answers mem vma.start length).2.process.vmas =
      if hasBit vma.flags NPK_MAP_HEAP then vma :: vmas else vmas := by
  have hnonempty := hok.nonempty
  have hsum : vma.start + (vma.stop - vma.start) = vma.stop := by omega
  obtain ⟨-, hle, -⟩ := pageAlignUp_eq_some hlength
  have hpositive : length ≠ 0 := by
    rintro rfl
    simp [pageAlignUp, NPK_PAGE_SIZE, UINT64_MAX] at hlength
    omega
  have hword : addOverflow vma.start (vma.stop - vma.start) = false := by
    have hhigh := hok.high
    have hmax : NPK_USER_MAX ≤ UINT64_MAX := by decide
    exact decide_eq_false (by omega)
  have hfind : (vma :: vmas).find? (fun area => decide (area.start ≤ vma.start) &&
      decide (vma.stop ≤ area.stop)) = some vma := List.find?_cons_of_pos (by simp)
  unfold vmUnmap
  rw [if_neg (by simp [hok.start_aligned, hpositive]), hlength]
  simp only [hword, Bool.false_eq_true, if_false, hsum, hvmas, hfind]
  split
  · exact hvmas
  rw [if_neg (by simp)]
  have hreplace : replaceFirst (fun area => decide (area.start ≤ vma.start) &&
      decide (vma.stop ≤ area.stop)) (fun area => area.cut vma.start vma.stop) (vma :: vmas) =
      vmas := by
    rw [replaceFirst, if_pos (by simp), Vma.cut, if_neg (by omega), if_pos ⟨rfl, rfl⟩]
    rfl
  rw [hreplace]
  exact congrArg Layout.vmas (unmapPages_layout _ _ (mem.setVmas vmas))

/-! ## What the calls make -/

structure MadeAnonymous (length : ℕ) (protection flags : Word) (vma : Vma) : Prop where
  size : pageAlignUp length = some (vma.stop - vma.start)
  protection_eq : vma.protection = protection
  flags_eq : vma.flags = flags
  handle_eq : vma.backingHandle = none

structure MadeFromFile (answers : Answers) (handle length : ℕ) (protection flags : Word)
    (offset : ℕ) (vma : Vma) : Prop where
  size : pageAlignUp length = some (vma.stop - vma.start)
  protection_eq : vma.protection = protection
  flags_eq : vma.flags = (flags ||| NPK_MAP_ANONYMOUS) &&& ~~~NPK_MAP_ANONYMOUS
  handle_eq : vma.backingHandle = some handle
  offset_eq : vma.backingOffset = offset
  backing_eq : vma.backingSize = min (answers.fileSize.toNat - offset) (vma.stop - vma.start)
  aligned : offset % NPK_PAGE_SIZE = 0
  fits : offset ≤ UINT64_MAX - length
  fileBacked : answers.fileBacked = true
  restricted : (hasBit protection NPK_PROT_WRITE && hasBit flags NPK_MAP_SHARED) = false

structure MadeFromObject (objects : Objects) (handle length : ℕ) (protection flags : Word)
    (offset : ℕ) (vma : Vma) : Prop where
  size : pageAlignUp length = some (vma.stop - vma.start)
  protection_eq : vma.protection = protection
  flags_eq : vma.flags =
    ((flags ||| NPK_MAP_ANONYMOUS) &&& ~~~NPK_MAP_ANONYMOUS) ||| NPK_MAP_SHARED_OBJECT
  handle_eq : vma.backingHandle = some handle
  offset_eq : vma.backingOffset = offset
  backing_eq : vma.backingSize = vma.stop - vma.start
  aligned : offset % NPK_PAGE_SIZE = 0
  object : ∃ pages, objects handle = some pages ∧ offset + length ≤ pages.length * NPK_PAGE_SIZE

structure MadeForDisplay (length : ℕ) (protection flags : Word) (vma : Vma) : Prop where
  size : pageAlignUp length = some (vma.stop - vma.start)
  protection_eq : vma.protection = protection
  flags_eq : vma.flags = ((flags ||| NPK_MAP_ANONYMOUS) &&& ~~~NPK_MAP_ANONYMOUS) ||| NPK_MAP_DEVICE
  handle_eq : vma.backingHandle = none
  restricted : hasBit protection NPK_PROT_EXEC = false

def Vma.forDisplay (start size : ℕ) (protection flags : Word) : Vma :=
  { Vma.plain start size protection (flags ||| NPK_MAP_ANONYMOUS) with
    flags := ((flags ||| NPK_MAP_ANONYMOUS) &&& ~~~NPK_MAP_ANONYMOUS) ||| NPK_MAP_DEVICE }

/-- How a mapping call ends: it is refused, it takes back the area it has made, or the area
stays.  What is known of the area is `kept` if it is taken back, and else `made`. -/
inductive MapResult (answers : Answers) (mem : Memory) (kept made : Vma → Prop) :
    Except ℤ ℕ × Memory → Prop
  | refused (code : ℤ) : MapResult answers mem kept made (.error code, mem)
  | withdrawn (code : ℤ) {vma : Vma} {next : Memory} {length : ℕ} (hok : vma.Ok)
      (hfree : ∀ other ∈ mem.process.vmas, vma.Apart other) (hkept : kept vma)
      (hlength : pageAlignUp length = some (vma.stop - vma.start))
      (hnext : next.layout = (mem.reserve vma).layout) :
      MapResult answers mem kept made (.error code, (vmUnmap answers next vma.start length).2)
  | mapped {vma : Vma} {next : Memory} (hok : vma.Ok)
      (hfree : ∀ other ∈ mem.process.vmas, vma.Apart other) (hmade : made vma)
      (hnext : next.layout = (mem.reserve vma).layout) :
      MapResult answers mem kept made (.ok vma.start, next)

section results

variable {answers : Answers} {mem : Memory} {kept kept' made made' : Vma → Prop}
  {result : Except ℤ ℕ × Memory}

theorem MapResult.mono (hkept : ∀ vma, kept vma → kept' vma) (hmade : ∀ vma, made vma → made' vma)
    (h : MapResult answers mem kept made result) : MapResult answers mem kept' made' result := by
  cases h with
  | refused code => exact .refused code
  | withdrawn code hok hfree hvma hlength hnext =>
    exact .withdrawn code hok hfree (hkept _ hvma) hlength hnext
  | mapped hok hfree hvma hnext => exact .mapped hok hfree (hmade _ hvma) hnext

theorem MapResult.changes {fresh : Vma → Prop} {grants : ℕ → ℕ → Word → Prop}
    (h : MapResult answers mem kept made result) (hkept : ∀ vma, kept vma → fresh vma)
    (hmade : ∀ vma, made vma → fresh vma) :
    AreaChanges fresh grants mem.layout result.2.layout := by
  cases h with
  | refused code => exact .refl
  | withdrawn code hok hfree hvma hlength hnext =>
    have hreserved := @Memory.reserve_changes fresh grants mem _ hok hfree (hkept _ hvma)
    rw [← hnext] at hreserved
    exact hreserved.trans (vmUnmap_changes answers _ _ _)
  | mapped hok hfree hvma hnext =>
    dsimp only
    rw [hnext]
    exact Memory.reserve_changes hok hfree (hmade _ hvma)

theorem MapResult.outcome (h : MapResult answers mem kept made result) :
    MapOutcome made mem.process.vmas result.1 result.2.process.vmas := by
  cases h with
  | refused code => exact .failed code
  | withdrawn code hok hfree hvma hlength hnext =>
    dsimp only
    rw [vmUnmap_front answers (congrArg Layout.vmas hnext) hok hlength]
    split
    next hheap => exact .left code _ hok hfree hheap
    · exact .failed code
  | @mapped vma next hok hfree hvma hnext =>
    have hvmas : next.process.vmas = vma :: mem.process.vmas := congrArg Layout.vmas hnext
    dsimp only
    rw [hvmas]
    exact .made vma hok hfree hvma

structure Vma.SameRange (converted vma : Vma) : Prop where
  start : converted.start = vma.start
  stop : converted.stop = vma.stop
  protection : converted.protection = vma.protection

theorem Vma.SameRange.ok {converted vma : Vma} (h : converted.SameRange vma) (hok : vma.Ok) :
    converted.Ok where
  nonempty := by rw [h.start, h.stop]; exact hok.nonempty
  start_aligned := by rw [h.start]; exact hok.start_aligned
  stop_aligned := by rw [h.stop]; exact hok.stop_aligned
  low := by rw [h.start]; exact hok.low
  high := by rw [h.stop]; exact hok.high
  exclusive := by rw [h.protection]; exact hok.exclusive

theorem Vma.SameRange.apart {converted vma : Vma} (h : converted.SameRange vma)
    {vmas : List Vma} (hfree : ∀ other ∈ vmas, vma.Apart other) :
    ∀ other ∈ vmas, converted.Apart other := by
  intro other hother
  have hvma := hfree other hother
  simp only [Vma.Apart, IntervalLists.Apart, h.start, h.stop] at hvma ⊢
  exact hvma

variable (hcursor : mem.layout.mmapCursor % NPK_PAGE_SIZE = 0)
include hcursor

theorem vmMapAnonymous_result (hint length : ℕ) (protection flags : Word) :
    MapResult answers mem kept (MadeAnonymous length protection flags)
      (vmMapAnonymous answers mem hint length protection flags) := by
  rcases vmMapAnonymous_cases answers hint length protection flags hcursor with
    ⟨code, heq⟩ | ⟨start, size, hsize, hok, hfree, heq⟩
  · rw [heq]
    exact .refused code
  · rw [heq]
    refine .mapped hok hfree ⟨?_, rfl, rfl, rfl⟩ rfl
    simpa [Vma.plain] using hsize

omit hcursor in
/-- The layout after the conversion of an area that was just reserved. -/
theorem reserve_convert_layout {vma : Vma} (hok : vma.Ok) (convert : Vma → Vma)
    (hsame : (convert vma).SameRange vma) :
    ((mem.reserve vma).setVmas (replaceFirst (fun area => area.contains vma.start)
      (fun area => [convert area]) (mem.reserve vma).process.vmas)).layout =
      (mem.reserve (convert vma)).layout := by
  have hfront : vma.contains vma.start = true := Vma.contains_iff.2 ⟨le_rfl, hok.nonempty⟩
  simp [Memory.reserve, Memory.setVmas, Memory.layout, UserProcess.layout, replaceFirst, hfront,
    hsame.stop]

omit hcursor in
theorem findVma_reserve {vma : Vma} (hok : vma.Ok) :
    findVma (mem.reserve vma).process.vmas vma.start = some vma :=
  List.find?_cons_of_pos (Vma.contains_iff.2 ⟨le_rfl, hok.nonempty⟩)

theorem mapBacked_result (hint length : ℕ) (protection flags : Word) (convert : Vma → Vma)
    (hsame : ∀ vma, (convert vma).SameRange vma)
    (hmade : ∀ vma, MadeAnonymous length protection (flags ||| NPK_MAP_ANONYMOUS) vma →
      made (convert vma)) :
    MapResult answers mem (Vma.MadeBy flags 0 none) made
      (mapBacked answers mem hint length protection flags convert) := by
  unfold mapBacked
  rcases vmMapAnonymous_cases answers hint length protection (flags ||| NPK_MAP_ANONYMOUS)
    hcursor with ⟨code, heq⟩ | ⟨start, size, hsize, hok, hfree, heq⟩
  · rw [heq]
    exact .refused code
  rw [heq]
  generalize hvma : Vma.plain start size protection (flags ||| NPK_MAP_ANONYMOUS) = vma at hok hfree
  have hplain : MadeAnonymous length protection (flags ||| NPK_MAP_ANONYMOUS) vma := by
    subst hvma
    exact ⟨by simpa [Vma.plain] using hsize, rfl, rfl, rfl⟩
  obtain rfl : start = vma.start := by rw [← hvma]; rfl
  dsimp only
  split
  · refine .withdrawn _ hok hfree ⟨?_, hplain.handle_eq⟩ hplain.size rfl
    rw [hplain.flags_eq]
    simp [BitVec.or_assoc]
  · have hlayout := @reserve_convert_layout mem vma hok convert (hsame vma)
    rw [findVma_reserve hok]
    dsimp only
    rw [← (hsame vma).start] at hlayout ⊢
    exact .mapped ((hsame vma).ok hok) ((hsame vma).apart hfree) (hmade vma hplain) hlayout

theorem vmMapFile_result (handle hint length : ℕ) (protection flags : Word) (offset : ℕ) :
    MapResult answers mem (Vma.MadeBy flags 0 none)
      (MadeFromFile answers handle length protection flags offset)
      (vmMapFile answers mem handle hint length protection flags offset) := by
  fun_cases vmMapFile answers mem handle hint length protection flags offset with
  | case3 hargs hfits =>
    simp only [Bool.or_eq_true, decide_eq_true_eq, not_or, Bool.not_eq_true,
      Bool.not_eq_false', not_lt] at hargs hfits
    refine mapBacked_result hcursor hint length protection flags _
      (fun _ => ⟨rfl, rfl, rfl⟩) fun vma hvma => ?_
    exact ⟨hvma.size, hvma.protection_eq, by rw [hvma.flags_eq], rfl, rfl, rfl,
      by simpa using hargs.1.1.2, hfits.2, hargs.2, hargs.1.2⟩
  | _ => exact .refused _

theorem vmMapShared_result {objects : Objects} (handle hint length : ℕ)
    (protection flags : Word) (offset : ℕ) :
    MapResult answers mem (Vma.MadeBy flags 0 none)
      (MadeFromObject objects handle length protection flags offset)
      (vmMapShared answers objects mem handle hint length protection flags offset) := by
  fun_cases vmMapShared answers objects mem handle hint length protection flags offset with
  | case4 pages hobject hargs hfits =>
    simp only [Bool.or_eq_true, decide_eq_true_eq, not_or, not_lt] at hargs hfits
    refine mapBacked_result hcursor hint length protection flags _
      (fun _ => ⟨rfl, rfl, rfl⟩) fun vma hvma => ?_
    exact ⟨hvma.size, hvma.protection_eq, by rw [hvma.flags_eq], rfl, rfl, rfl,
      by simpa using hargs.2, pages, hobject, hfits.2⟩
  | _ => exact .refused _

theorem vmMapDevice_result (hint physical length : ℕ) (protection flags : Word) :
    MapResult answers mem (Vma.MadeBy flags NPK_MAP_DEVICE none)
      (MadeForDisplay length protection flags)
      (vmMapDevice answers mem hint physical length protection flags) := by
  unfold vmMapDevice
  split
  · exact .refused _
  next hargs =>
  split
  · exact .refused _
  next size hsize =>
  split
  · exact .refused _
  rcases vmMapAnonymous_cases answers hint size protection
    (flags ||| NPK_MAP_ANONYMOUS) hcursor with
    ⟨code, heq⟩ | ⟨start, size', hsize', hok, hfree, heq⟩
  · rw [heq]
    exact .refused code
  obtain rfl : size' = size := by
    obtain ⟨hmod, -⟩ := pageAlignUp_eq_some hsize
    obtain ⟨hmod', hle, hlt⟩ := pageAlignUp_eq_some hsize'
    simp only [NPK_PAGE_SIZE] at hmod hmod' hlt
    omega
  have hrange : (Vma.forDisplay start size' protection flags).SameRange
      (Vma.plain start size' protection (flags ||| NPK_MAP_ANONYMOUS)) :=
    ⟨rfl, rfl, rfl⟩
  have hfind : findVma (mem.reserve (Vma.plain start size' protection
      (flags ||| NPK_MAP_ANONYMOUS))).process.vmas start = some _ :=
    findVma_reserve hok
  have hlayout : ((mem.reserve (Vma.plain start size' protection
      (flags ||| NPK_MAP_ANONYMOUS))).setVmas _).layout =
      (mem.reserve (Vma.forDisplay start size' protection flags)).layout :=
    reserve_convert_layout hok (fun vma => { vma with
      flags := (vma.flags &&& ~~~NPK_MAP_ANONYMOUS) ||| NPK_MAP_DEVICE }) hrange
  have hlength : ∀ {length}, pageAlignUp length = some size' → pageAlignUp length =
      some ((Vma.forDisplay start size' protection flags).stop -
        (Vma.forDisplay start size' protection flags).start) := by
    intro length h
    simpa [Vma.forDisplay, Vma.plain] using h
  rw [heq]
  dsimp only
  rw [hfind]
  dsimp only
  split
  next hmap =>
    exact .withdrawn VM_ENOMEM (hrange.ok hok) (hrange.apart hfree)
      ⟨or_and_not_or_or flags NPK_MAP_ANONYMOUS NPK_MAP_DEVICE, rfl⟩
      (hlength hsize') ((mapDevicePages_layout hmap).trans hlayout)
  next hmap =>
    simp only [Bool.or_eq_true, decide_eq_true_eq, not_or, Bool.not_eq_true] at hargs
    exact .mapped (hrange.ok hok) (hrange.apart hfree)
      ⟨hlength hsize, rfl, rfl, rfl, hargs.1.2⟩
      ((mapDevicePages_layout hmap).trans hlayout)

def MmapArguments.Made (answers : Answers) (objects : Objects) (arguments : MmapArguments)
    (vma : Vma) : Prop :=
  let ⟨_, length, protection, flags, _, handle, offset⟩ := arguments
  (hasBit flags NPK_MAP_ANONYMOUS = true ∧ MadeAnonymous length protection flags vma) ∨
    (hasBit flags NPK_MAP_ANONYMOUS = false ∧ ∃ backing, handle = some backing ∧
      (((objects backing).isSome = true ∧
          MadeFromObject objects backing length protection flags offset vma) ∨
        ((objects backing).isSome = false ∧
          MadeFromFile answers backing length protection flags offset vma)))

def MmapArguments.Makes (arguments : MmapArguments) (objects : Objects) (vma : Vma) : Prop :=
  vma.MadeBy arguments.flags 0 none ∨
    ∃ handle, arguments.handle = some handle ∧
      ((objects handle).isSome = false ∧ vma.MadeBy arguments.flags 0 (some handle) ∨
        (objects handle).isSome = true ∧
          vma.MadeBy arguments.flags NPK_MAP_SHARED_OBJECT (some handle))

omit hcursor in
theorem MmapArguments.Made.makes {objects : Objects} {arguments : MmapArguments} {vma : Vma}
    (h : arguments.Made answers objects vma) : arguments.Makes objects vma := by
  rcases h with ⟨-, hvma⟩ | ⟨-, handle, hhandle, ⟨hobject, hvma⟩ | ⟨hobject, hvma⟩⟩
  · refine Or.inl ⟨?_, hvma.handle_eq⟩
    rw [hvma.flags_eq]
    simp
  · refine Or.inr ⟨handle, hhandle, Or.inr ⟨hobject, ?_, hvma.handle_eq⟩⟩
    rw [hvma.flags_eq]
    exact or_and_not_or_or _ NPK_MAP_ANONYMOUS NPK_MAP_SHARED_OBJECT
  · refine Or.inr ⟨handle, hhandle, Or.inl ⟨hobject, ?_, hvma.handle_eq⟩⟩
    have hflags := or_and_not_or_or arguments.flags NPK_MAP_ANONYMOUS 0
    rw [hvma.flags_eq]
    simpa using hflags

theorem sysMmap_result {objects : Objects} (arguments : MmapArguments) :
    MapResult answers mem (Vma.MadeBy arguments.flags 0 none) (arguments.Made answers objects)
      (sysMmap answers objects arguments mem) := by
  obtain ⟨requested, length, protection, flags, fd, handle, offset⟩ := arguments
  unfold sysMmap
  dsimp only
  split
  · exact .refused _
  split
  next hanonymous =>
    split
    · exact .refused _
    · exact (vmMapAnonymous_result hcursor requested length protection flags).mono
        (fun _ => id) fun vma hvma => Or.inl ⟨hanonymous, hvma⟩
  next hanonymous =>
    split
    · exact .refused _
    cases handle with
    | none => exact .refused _
    | some handle =>
      dsimp only
      split
      next hobject =>
        exact (vmMapShared_result hcursor handle requested length protection flags
          offset).mono (fun _ => id) fun vma hvma => Or.inr
            ⟨Bool.eq_false_iff.2 hanonymous, handle, rfl, Or.inl ⟨hobject, hvma⟩⟩
      next hobject =>
        exact (vmMapFile_result hcursor handle requested length protection flags
          offset).mono (fun _ => id) fun vma hvma => Or.inr
            ⟨Bool.eq_false_iff.2 hanonymous, handle, rfl,
              Or.inr ⟨Bool.eq_false_iff.2 hobject, hvma⟩⟩

end results

end NPKernel.Vm
