import NPKernel.PageChanges

/-!
# Private pages and what user mode reads in them

A process that has neither forked nor mapped a shared object has its pages to itself:
every page of it has a frame of its own.  A store to one page is then seen at the
addresses of that page and nowhere else.
-/

namespace NPKernel.Vm

open RadixTables

/-! ## Addresses and paths -/

variable {a b address frame other : ℕ} {frames frames' : Frames}

theorem pagePath_inj (ha : a < 2 ^ 48) (hb : b < 2 ^ 48)
    (h : pagePath a = pagePath b) : a / NPK_PAGE_SIZE = b / NPK_PAGE_SIZE := by
  simp only [pagePath, tableIndex, List.cons.injEq, Fin.ext_iff, Fin.val_ofNat, and_true] at h
  simp only [NPK_PAGE_SIZE]
  omega

theorem pagePath_congr (h : a / NPK_PAGE_SIZE = b / NPK_PAGE_SIZE) : pagePath a = pagePath b := by
  simp only [NPK_PAGE_SIZE] at h
  simp only [pagePath, tableIndex, List.cons.injEq, Fin.ext_iff, Fin.val_ofNat, and_true]
  omega

theorem canonical_of_lt (h : address < USER_LIMIT) : canonical address = true := by
  have hlow : address < 2 ^ 48 := lt_trans h (by decide)
  simp [canonical] at hlow ⊢
  exact Or.inl hlow

/-! ## The frames of a process -/

/-- Every page has an allocated frame, and no two pages have the same one. -/
structure Private (mem : Memory) : Prop where
  used : ∀ path entry, mem.process.tables.leafAt path = some entry →
    mem.frames.used entry.frame = true ∧ entry.frame ≠ 0
  apart : ∀ path other entry entry', mem.process.tables.leafAt path = some entry →
    mem.process.tables.leafAt other = some entry' → entry.frame = entry'.frame → path = other

theorem allocFrame_used {result : Option ℕ}
    (halloc : allocFrame frames = (result, frames')) (h : frames.used frame = true) :
    frames'.used frame = true := by
  rw [show frames' = (allocFrame frames).2 by rw [halloc]]
  unfold allocFrame pmmAllocPage
  cases findFreePage frames.used MAX_TRACKED_PAGES with
  | none => simpa using h
  | some page =>
    dsimp only
    split
    · by_cases hpage : frame = page
      · simp [hpage]
      · simp [hpage, h]
    · by_cases hpage : frame = page
      · simp [hpage]
      · simp [hpage, h]

theorem freeFrame_used_of_ne (frames : Frames) (hne : other ≠ frame) :
    (freeFrame frames frame).used other = frames.used other := by
  have hdiv : frame * NPK_PAGE_SIZE / NPK_PAGE_SIZE = frame :=
    Nat.mul_div_cancel _ (by decide)
  unfold freeFrame pmmFreePage
  dsimp only
  split
  · rfl
  · split
    · rfl
    · simp only [hdiv]
      exact Function.update_of_ne hne ..

theorem taken_used {labels : List ℕ} (h : Tree.Taken allocFrame frames labels frames')
    (hused : frames.used frame = true) : frames'.used frame = true := by
  induction h with
  | none s => exact hused
  | exhausted halloc => exact allocFrame_used halloc hused
  | cons halloc hrest ih => exact ih (allocFrame_used halloc hused)

theorem vmmMapPageRoot_used (frames : Frames) (tables : PageTree) (address frame : ℕ)
    (flags : PageFlags) (h : frames.used other = true) :
    (vmmMapPageRoot frames tables address frame flags).2.1.used other = true := by
  rcases vmmMapPageRoot_cases frames tables address frame flags with hcase | ⟨_, _, hcase⟩
  · rwa [hcase]
  · rw [hcase]
    obtain ⟨labels, hlabels, -⟩ := Tree.weight_insert allocFrame (leafEntry frame flags) tables
      (pagePath address) frames
    exact taken_used hlabels h

theorem vmmMapPageRoot_leafAt (frames : Frames) (tables : PageTree) (address frame : ℕ)
    (flags : PageFlags) (path : List (Fin 512)) :
    (vmmMapPageRoot frames tables address frame flags).2.2.leafAt path =
      if path = pagePath address ∧
          (vmmMapPageRoot frames tables address frame flags).1 = true then
        some (leafEntry frame flags)
      else tables.leafAt path := by
  rcases vmmMapPageRoot_cases frames tables address frame flags with hcase | ⟨_, _, hcase⟩
  · simp [hcase]
  · rw [hcase]
    exact Tree.leafAt_insert ..

/-- What a mapping of one more page leaves of the tables and the frames. -/
structure Mapped (mem : Memory) (page frame : ℕ) (flags : PageFlags) (next : Memory) : Prop where
  aligned : page % NPK_PAGE_SIZE = 0
  user : flags.user = true → page < USER_LIMIT
  absent : mem.process.tables.leafAt (pagePath page) = none
  leafAt : ∀ path, next.process.tables.leafAt path =
    if path = pagePath page then some (leafEntry frame flags)
    else mem.process.tables.leafAt path
  used : ∀ other, mem.frames.used other = true → next.frames.used other = true
  bytes : next.frames.bytes = mem.frames.bytes

section steps

variable {mem next : Memory} {page frame : ℕ} {flags : PageFlags}

theorem Memory.mapPage_mapped (h : mem.mapPage page frame flags = (true, next)) :
    Mapped mem page frame flags next := by
  have hbytes := Memory.mapPage_bytes h
  unfold Memory.mapPage at h
  obtain ⟨hdone, rfl⟩ := Prod.mk.inj h
  have hcase : (page % NPK_PAGE_SIZE = 0 ∧ (flags.user = true → page < USER_LIMIT)) ∧
      mem.process.tables.leafAt (pagePath page) = none := by
    rcases vmmMapPageRoot_cases mem.frames mem.process.tables page frame flags with
      hcase | ⟨haligned, huser, hcase⟩
    · simp [hcase] at hdone
    · rw [hcase] at hdone
      exact ⟨⟨haligned, huser⟩, Tree.leafAt_of_insert _ _ hdone⟩
  constructor
  · exact hcase.1.1
  · exact hcase.1.2
  · exact hcase.2
  · intro path
    rw [vmmMapPageRoot_leafAt]
    simp only [hdone, and_true]
  · intro other hused
    exact vmmMapPageRoot_used _ _ _ _ _ hused
  · exact hbytes

theorem Memory.mapPage_refused (h : mem.mapPage page frame flags = (false, next)) :
    (∀ path, next.process.tables.leafAt path = mem.process.tables.leafAt path) ∧
      ∀ other, mem.frames.used other = true → next.frames.used other = true := by
  unfold Memory.mapPage at h
  obtain ⟨hdone, rfl⟩ := Prod.mk.inj h
  constructor
  · intro path
    rw [vmmMapPageRoot_leafAt, hdone]
    simp
  · intro other hused
    exact vmmMapPageRoot_used _ _ _ _ _ hused

namespace Private

variable (h : Private mem)

include h

theorem mono (hleaf : ∀ path, next.process.tables.leafAt path = mem.process.tables.leafAt path)
    (hused : ∀ path entry, mem.process.tables.leafAt path = some entry →
      next.frames.used entry.frame = true) : Private next := by
  constructor
  · intro path entry hpath
    rw [hleaf] at hpath
    exact ⟨hused path entry hpath, (h.used path entry hpath).2⟩
  · intro path other entry entry' hpath hother
    rw [hleaf] at hpath hother
    exact h.apart path other entry entry' hpath hother

theorem sameTables (htables : next.process.tables = mem.process.tables)
    (hused : ∀ {frame}, mem.frames.used frame = true → next.frames.used frame = true) :
    Private next := by
  apply h.mono
  · intro path
    rw [htables]
  · intro path entry hpath
    exact hused (h.used path entry hpath).1

variable {changed path : List (Fin 512)} {entry old : Pte} {frames : Frames} {sources : Sources}
  {allowed : ℕ → PageFlags → Prop}

/-- One entry is replaced or removed; a new frame is not that of another page. -/
theorem alter {value : Option Pte} (hleaf : ∀ path, next.process.tables.leafAt path =
      if path = changed then value else mem.process.tables.leafAt path)
    (hused : ∀ path old, path ≠ changed → mem.process.tables.leafAt path = some old →
      next.frames.used old.frame = true) (hvalue : ∀ entry, value = some entry →
      (next.frames.used entry.frame = true ∧ entry.frame ≠ 0) ∧
        ∀ path old, path ≠ changed → mem.process.tables.leafAt path = some old →
          old.frame ≠ entry.frame) : Private next := by
  constructor
  · intro path old hpath
    rw [hleaf] at hpath
    split at hpath
    · exact (hvalue old hpath).1
    next hne => exact ⟨hused path old hne hpath, (h.used path old hpath).2⟩
  · intro path other old old' hpath hother heq
    rw [hleaf] at hpath hother
    split at hpath
    next hpath' =>
      split at hother
      next hother' => rw [hpath', hother']
      next hne => exact absurd heq.symm ((hvalue old hpath).2 other old' hne hother)
    next hne =>
      split at hother
      · exact absurd heq ((hvalue old' hother).2 path old hne hpath)
      · exact h.apart path other old old' hpath hother heq

theorem frame_ne (hold : mem.process.tables.leafAt changed = some old) (hne : path ≠ changed)
    (hpath : mem.process.tables.leafAt path = some entry) : entry.frame ≠ old.frame :=
  fun heq => hne (h.apart _ _ _ _ hpath hold heq)

theorem fresh (halloc : allocFrame mem.frames = (some frame, frames))
    (hpath : mem.process.tables.leafAt path = some entry) : entry.frame ≠ frame := by
  intro heq
  have hused := (h.used path entry hpath).1
  rw [heq, (allocFrame_some halloc).2.2.1] at hused
  exact absurd hused (by decide)

theorem used_alloc {result : Option ℕ}
    (halloc : allocFrame mem.frames = (result, frames))
    (hpath : mem.process.tables.leafAt path = some entry) : frames.used entry.frame = true :=
  allocFrame_used halloc (h.used path entry hpath).1

end Private

theorem alter_leafAt {tables : PageTree}
    (hold : tables.leafAt path = some old) (f : Option Pte → Option Pte) (hpath : path ≠ [])
    (other : List (Fin 512)) :
    (tables.alter f path).leafAt other =
      if other = path then f (some old) else tables.leafAt other := by
  split
  next heq =>
    rw [heq, Tree.leafAt_alter_self f (Tree.hasSlot_of_leafAt hold hpath), hold]
  next hne => exact Tree.leafAt_alter_of_ne f hne

theorem pagePath_ne_nil (address : ℕ) : pagePath address ≠ [] := List.cons_ne_nil _ _

/-- Pages stay private while no page of an object or of the framebuffer is mapped. -/
theorem Private.step (h : Private mem)
    (hobjects : ∀ handle, sources.objects handle = none)
    (hdisplay : ∀ frame, ¬sources.display frame)
    (hstep : PageChange sources allowed mem next) : Private next := by
  cases hstep with
  | exhausted frames halloc => exact h.sameTables rfl (allocFrame_used halloc)
  | discarded frame frames halloc =>
    refine Private.mono h (fun _ => rfl) fun path entry hpath => ?_
    exact (freeFrame_used_of_ne frames (h.fresh halloc hpath)).trans (h.used_alloc halloc hpath)
  | refused page frame frames initial flags middle halloc hmap =>
    obtain ⟨hleaf, hused⟩ := Memory.mapPage_refused hmap
    refine Private.mono h hleaf fun path entry hpath => ?_
    exact (freeFrame_used_of_ne _ (h.fresh halloc hpath)).trans
      (hused _ (h.used_alloc halloc hpath :))
  | created page frame frames initial contents flags middle halloc hmap =>
    have hmapped := Memory.mapPage_mapped hmap
    have hframe := allocFrame_some halloc
    refine Private.alter h hmapped.leafAt ?_ ?_
    · intro path old _ hpath
      exact hmapped.used _ (h.used_alloc halloc hpath :)
    · rintro _ ⟨⟩
      refine ⟨⟨hmapped.used _ ?_, hframe.1⟩, fun path old _ hpath => h.fresh halloc hpath⟩
      show frames.used frame = true
      rw [hframe.2.2.2.1, Function.update_self]
  | shareRefused page frame flags handle pages middle hobject =>
    rw [hobjects] at hobject
    exact absurd hobject (by simp)
  | shared page frame flags handle pages middle hobject =>
    rw [hobjects] at hobject
    exact absurd hobject (by simp)
  | device page frame flags done middle hframe => exact absurd hframe (hdisplay frame)
  | resolved address resolved frames tables hresolve =>
    revert hresolve
    fun_cases vmmResolveCowFault mem.frames mem.process.tables address with
    | case5 _ old hold =>
      rintro ⟨⟩
      refine Private.alter h (alter_leafAt hold _ (pagePath_ne_nil address))
        (fun path entry _ hpath => (h.used path entry hpath).1) ?_
      rintro _ ⟨⟩
      exact ⟨h.used _ old hold, fun _ _ hne hpath => (h.frame_ne hold hne hpath :)⟩
    | case6 _ _ _ _ _ _ _ _ halloc =>
      rintro ⟨⟩
      exact h.sameTables rfl (allocFrame_used halloc)
    | case7 _ old hold _ _ _ _ page frames' halloc =>
      rintro ⟨⟩
      have hframe := allocFrame_some halloc
      refine Private.alter h (alter_leafAt hold _ (pagePath_ne_nil address)) ?_ ?_
      · intro path entry hne hpath
        exact (freeFrame_used_of_ne _ (h.frame_ne hold hne hpath)).trans
          (h.used_alloc halloc hpath :)
      · rintro _ ⟨⟩
        refine ⟨⟨(freeFrame_used_of_ne _ (h.fresh halloc hold).symm).trans ?_, hframe.1⟩,
          fun path entry _ hpath => h.fresh halloc hpath⟩
        show frames'.used page = true
        rw [hframe.2.2.2.1, Function.update_self]
    | _ =>
      rintro ⟨⟩
      exact h
  | stored | grown => exact h.sameTables rfl id
  | unmapped page =>
    unfold unmapPage vmmUnmapPageRoot
    dsimp only
    split
    · exact h
    cases hold : mem.process.tables.leafAt (pagePath page) with
    | none => exact h
    | some old =>
      dsimp only
      refine Private.alter h (alter_leafAt hold _ (pagePath_ne_nil page)) ?_ ?_
      · intro path entry hne hpath
        unfold freeUnlessZero
        split
        · exact (freeFrame_used_of_ne _ (h.frame_ne hold hne hpath)).trans
            (h.used path entry hpath).1
        · exact (h.used path entry hpath).1
      · rintro _ ⟨⟩
  | reprotected page flags done tables hprotect =>
    revert hprotect
    fun_cases vmmProtectPageRoot mem.process.tables page flags with
    | case4 _ old hold =>
      rintro ⟨⟩
      refine Private.alter h (alter_leafAt hold _ (pagePath_ne_nil page))
        (fun path entry _ hpath => (h.used path entry hpath).1) ?_
      rintro _ ⟨⟩
      exact ⟨h.used _ old hold, fun _ _ hne hpath => (h.frame_ne hold hne hpath :)⟩
    | _ =>
      rintro ⟨⟩
      exact h

theorem Private.afterChanges (h : Private mem)
    (hobjects : ∀ handle, sources.objects handle = none)
    (hdisplay : ∀ frame, ¬sources.display frame)
    (hchanges : PageChanges sources allowed mem next) : Private next := by
  induction hchanges with
  | refl => exact h
  | tail _ hstep ih => exact ih.step hobjects hdisplay hstep

end steps

/-! ## What user mode reads -/

def Memory.userByte (mem : Memory) (address : ℕ) : Option (BitVec 8) :=
  match mem.process.tables.leafAt (pagePath address) with
  | none => none
  | some entry =>
    if entry.user && decide (address < USER_LIMIT) then
      some (mem.frames.bytes entry.frame (address % NPK_PAGE_SIZE))
    else none

theorem Memory.userByte_eq_some {mem : Memory} {byte : BitVec 8} :
    mem.userByte address = some byte ↔ address < USER_LIMIT ∧
      ∃ entry, mem.process.tables.leafAt (pagePath address) = some entry ∧ entry.user = true ∧
        mem.frames.bytes entry.frame (address % NPK_PAGE_SIZE) = byte := by
  unfold Memory.userByte
  cases mem.process.tables.leafAt (pagePath address) with
  | none => simp
  | some entry =>
    simp only [Option.ite_none_right_eq_some, Bool.and_eq_true, decide_eq_true_eq,
      Option.some.injEq, exists_eq_left']
    tauto

structure Kept (mem next : Memory) : Prop where
  leafAt : ∀ path entry, mem.process.tables.leafAt path = some entry →
    next.process.tables.leafAt path = some entry
  bytes : ∀ path entry, mem.process.tables.leafAt path = some entry →
    next.frames.bytes entry.frame = mem.frames.bytes entry.frame

def Plain (vmas : List Vma) : Prop :=
  ∀ vma ∈ vmas, hasBit vma.flags NPK_MAP_SHARED_OBJECT = false ∧ vma.backingHandle = none

section reading

variable {mem next last : Memory}

theorem Kept.refl (mem : Memory) : Kept mem mem where
  leafAt _ _ h := h
  bytes _ _ _ := rfl

theorem Kept.trans (h : Kept mem next) (hnext : Kept next last) : Kept mem last := by
  constructor
  · intro path entry hpath
    exact hnext.leafAt path entry (h.leafAt path entry hpath)
  · intro path entry hpath
    exact (hnext.bytes path entry (h.leafAt path entry hpath)).trans (h.bytes path entry hpath)

theorem Kept.userByte (h : Kept mem next) {address : ℕ} {byte : BitVec 8}
    (hbyte : mem.userByte address = some byte) : next.userByte address = some byte := by
  obtain ⟨hlimit, entry, hpath, huser, hvalue⟩ := Memory.userByte_eq_some.1 hbyte
  apply Memory.userByte_eq_some.2
  refine ⟨hlimit, entry, h.leafAt _ entry hpath, huser, ?_⟩
  rw [h.bytes _ entry hpath]
  exact hvalue

theorem growStack_kept (stack : Bool) (page : ℕ) : Kept mem (growStack mem stack page) := by
  unfold growStack
  split
  · exact ⟨fun _ _ h => h, fun _ _ _ => rfl⟩
  · exact Kept.refl mem

theorem Kept.of_bytes
    (hleaf : ∀ path, next.process.tables.leafAt path = mem.process.tables.leafAt path)
    (hbytes : next.frames.bytes = mem.frames.bytes) : Kept mem next where
  leafAt path _ hpath := (hleaf path).trans hpath
  bytes _ entry _ := congrFun hbytes entry.frame

theorem Kept.mapped (h : Private mem) {frame page : ℕ} {frames : Frames} {flags : PageFlags}
    (halloc : allocFrame mem.frames = (some frame, frames))
    (hmap : (mem.setFrames frames).mapPage page frame flags = (true, next))
    (contents : ℕ → BitVec 8) : Kept mem (next.setFrames (next.frames.store frame contents)) := by
  have hmapped := Memory.mapPage_mapped hmap
  constructor
  · intro path entry hpath
    refine ((hmapped.leafAt path).trans (if_neg ?_)).trans hpath
    rintro rfl
    cases hpath.symm.trans hmapped.absent
  · intro path entry hpath
    have hbytes : next.frames.bytes = frames.bytes := hmapped.bytes
    simp only [Memory.setFrames, Frames.store_bytes]
    rw [Function.update_of_ne (h.fresh halloc hpath), hbytes, (allocFrame_some halloc).2.2.2.2.2]

theorem mapZeroPage_kept (h : Private mem) (page : ℕ) (protection : Word) :
    Kept mem (mapZeroPage mem page protection).2 := by
  have hbytes := allocFrame_bytes mem.frames
  fun_cases mapZeroPage mem page protection with
  | case1 => exact Kept.refl mem
  | case2 _ _ halloc =>
    rw [halloc] at hbytes
    exact .of_bytes (fun _ => rfl) hbytes
  | case3 _ _ _ halloc _ hmap =>
    rw [halloc] at hbytes
    exact .of_bytes (Memory.mapPage_refused hmap).1
      (freeFrame_bytes.trans ((Memory.mapPage_bytes hmap).trans hbytes))
  | case4 _ _ _ halloc _ hmap => exact .mapped h halloc hmap _

theorem makePage_plain (answers : Answers) (objects : Objects) (hplain : Plain mem.process.vmas)
    (address page : ℕ) (protection : Word) :
    makePage answers objects mem (findVma mem.process.vmas address) page protection =
      mapZeroPage mem page protection := by
  cases hvma : findVma mem.process.vmas address with
  | none => rfl
  | some vma =>
    obtain ⟨hshared, hbacking⟩ := hplain vma (List.mem_of_find?_eq_some hvma)
    simp [makePage, hshared, hbacking]

theorem mapZeroPage_private (h : Private mem) (page : ℕ) (protection : Word) :
    Private (mapZeroPage mem page protection).2 := by
  have hchanges : PageChanges ⟨fun _ => none, fun _ => False⟩ (fun _ _ => True) mem
      (mapZeroPage mem page protection).2 := mapZeroPage_changes trivial
  exact h.afterChanges (fun _ => rfl) (fun _ hfalse => hfalse) hchanges

theorem growStack_private (h : Private mem) (stack : Bool) (page : ℕ) :
    Private (growStack mem stack page) := by
  unfold growStack
  split
  · exact ⟨h.used, h.apart⟩
  · exact h

variable (answers : Answers) (objects : Objects)

theorem vmEnsureUserPage_kept (h : Private mem) (hplain : Plain mem.process.vmas) (address : ℕ)
    (write : Bool) :
    Kept mem (vmEnsureUserPage answers objects mem address write).2 ∧
      Private (vmEnsureUserPage answers objects mem address write).2 := by
  fun_cases vmEnsureUserPage answers objects mem address write with
  | case7 _ _ _ _ _ _ _ _ _ _ made hmade =>
    rw [makePage_plain answers objects hplain] at hmade
    obtain rfl := congrArg Prod.snd hmade
    exact ⟨mapZeroPage_kept h _ _, mapZeroPage_private h _ _⟩
  | case8 _ _ _ _ _ _ _ _ _ _ made hmade =>
    rw [makePage_plain answers objects hplain] at hmade
    obtain rfl := congrArg Prod.snd hmade
    exact ⟨(mapZeroPage_kept h _ _).trans (growStack_kept _ _),
      growStack_private (mapZeroPage_private h _ _) _ _⟩
  | _ => exact ⟨Kept.refl mem, h⟩

theorem prepareWrite_kept (h : Private mem) (hplain : Plain mem.process.vmas) (address : ℕ) :
    Kept mem (prepareWrite answers objects false mem address) ∧
      Private (prepareWrite answers objects false mem address) := by
  unfold prepareWrite
  simp only [Bool.and_false, Bool.false_eq_true, if_false]
  split
  · exact ⟨Kept.refl mem, h⟩
  · exact vmEnsureUserPage_kept answers objects h hplain address true

end reading

/-! ## Writes -/

structure Wrote (mem : Memory) (address : ℕ) (bytes : List (BitVec 8)) (next : Memory) :
    Prop where
  inside : ∀ i byte, bytes[i]? = some byte → next.userByte (address + i) = some byte
  outside : ∀ other byte, other < address ∨ address + bytes.length ≤ other →
    mem.userByte other = some byte → next.userByte other = some byte
  vmas : next.process.vmas = mem.process.vmas
  secluded : Private next

section writing

variable {mem next last : Memory} {address : ℕ} {bytes more : List (BitVec 8)}

theorem Wrote.nil (h : Private mem) (address : ℕ) : Wrote mem address [] mem where
  inside := by simp
  outside _ _ _ hbyte := hbyte
  vmas := rfl
  secluded := h

theorem Wrote.append (h : Wrote mem address bytes next)
    (hmore : Wrote next (address + bytes.length) more last) :
    Wrote mem address (bytes ++ more) last := by
  constructor
  · intro i byte hi
    by_cases hlt : i < bytes.length
    · rw [List.getElem?_append_left hlt] at hi
      exact hmore.outside _ _ (Or.inl (by omega)) (h.inside i byte hi)
    · rw [List.getElem?_append_right (by omega)] at hi
      have hread := hmore.inside _ byte hi
      rwa [show address + bytes.length + (i - bytes.length) = address + i by omega] at hread
  · intro other byte hother hbyte
    rw [List.length_append] at hother
    exact hmore.outside _ _ (by omega) (h.outside _ _ (by omega) hbyte)
  · exact hmore.vmas.trans h.vmas
  · exact hmore.secluded

theorem vmmLookupRoot_writable {tables : PageTree} (hlimit : address < USER_LIMIT)
    (h : vmmLookupRoot tables address { user := true, write := true } ≠ 0) :
    ∃ entry, tables.leafAt (pagePath address) = some entry ∧ entry.user = true ∧
      vmmLookupRoot tables address { user := true, write := true } =
        entry.frame * NPK_PAGE_SIZE + address % NPK_PAGE_SIZE := by
  unfold vmmLookupRoot at h ⊢
  simp only [canonical_of_lt hlimit, Bool.not_true, Bool.false_eq_true, if_false] at h ⊢
  cases hentry : tables.leafAt (pagePath address) with
  | none => simp [hentry] at h
  | some entry =>
    simp only [hentry] at h ⊢
    split at h
    · exact absurd rfl h
    next hflags =>
    simp only [Bool.true_and, Bool.false_and, Bool.or_false, Bool.or_eq_true,
      Bool.not_eq_true', not_or, Bool.not_eq_false] at hflags
    refine ⟨entry, rfl, hflags.1, ?_⟩
    rw [if_neg (by simp [hflags.1, hflags.2])]

theorem stored_wrote (h : Private mem) {entry : Pte}
    (hentry : mem.process.tables.leafAt (pagePath address) = some entry)
    (huser : entry.user = true) (hlimit : address < USER_LIMIT)
    (hpage : address % NPK_PAGE_SIZE + bytes.length ≤ NPK_PAGE_SIZE) :
    Wrote mem address bytes (mem.setFrames
      (mem.frames.writeBytes (entry.frame * NPK_PAGE_SIZE + address % NPK_PAGE_SIZE) bytes)) := by
  have hframe : (entry.frame * NPK_PAGE_SIZE + address % NPK_PAGE_SIZE) / NPK_PAGE_SIZE =
      entry.frame := by
    simp only [NPK_PAGE_SIZE]
    omega
  have hoffset : (entry.frame * NPK_PAGE_SIZE + address % NPK_PAGE_SIZE) % NPK_PAGE_SIZE =
      address % NPK_PAGE_SIZE := by
    simp only [NPK_PAGE_SIZE]
    omega
  constructor
  · intro i byte hi
    have hlt : i < bytes.length := (List.getElem?_eq_some_iff.1 hi).1
    have hsame : (address + i) / NPK_PAGE_SIZE = address / NPK_PAGE_SIZE := by
      simp only [NPK_PAGE_SIZE] at hpage ⊢
      omega
    have hmod : (address + i) % NPK_PAGE_SIZE = address % NPK_PAGE_SIZE + i := by
      simp only [NPK_PAGE_SIZE] at hpage ⊢
      omega
    apply Memory.userByte_eq_some.2
    refine ⟨?_, entry, ?_, huser, ?_⟩
    · simp only [NPK_PAGE_SIZE, USER_LIMIT] at hsame hlimit ⊢
      omega
    · exact (congrArg _ (pagePath_congr hsame)).trans hentry
    · simp only [Memory.setFrames, Frames.writeBytes, hframe, hoffset, Frames.store_bytes,
        Function.update_self, hmod]
      rw [if_pos ⟨by omega, by omega⟩, Nat.add_sub_cancel_left, List.getD_eq_getElem?_getD, hi]
      rfl
  · intro other byte hother hbyte
    obtain ⟨hbelow, entry', hpath, huser', hvalue⟩ := Memory.userByte_eq_some.1 hbyte
    apply Memory.userByte_eq_some.2
    refine ⟨hbelow, entry', hpath, huser', ?_⟩
    simp only [Memory.setFrames, Frames.writeBytes, hframe, hoffset, Frames.store_bytes]
    by_cases hsame : entry'.frame = entry.frame
    · have hpaths := h.apart _ _ _ _ hpath hentry hsame
      have hpages := pagePath_inj (lt_trans hbelow (by decide)) (lt_trans hlimit (by decide)) hpaths
      rw [hsame, Function.update_self, if_neg, ← hsame]
      · exact hvalue
      · simp only [NPK_PAGE_SIZE] at hpages ⊢
        omega
    · rw [Function.update_of_ne hsame]
      exact hvalue
  · rfl
  · exact ⟨h.used, h.apart⟩

theorem Kept.wrote (h : Kept mem next) (hvmas : next.process.vmas = mem.process.vmas)
    (hwrote : Wrote next address bytes last) : Wrote mem address bytes last where
  inside := hwrote.inside
  outside _ _ hother hbyte := hwrote.outside _ _ hother (h.userByte hbyte)
  vmas := hwrote.vmas.trans hvmas
  secluded := hwrote.secluded

variable (answers : Answers) (objects : Objects)

theorem writePage_wrote (h : Private mem) (hplain : Plain mem.process.vmas)
    (hlimit : address < USER_LIMIT) (hpage : address % NPK_PAGE_SIZE + bytes.length ≤ NPK_PAGE_SIZE)
    (hdone : writePage answers objects false mem address bytes = (true, next)) :
    Wrote mem address bytes next := by
  obtain ⟨hkept, hprivate⟩ := prepareWrite_kept answers objects h hplain address
  have hchanges : PageChanges ⟨objects, fun _ => False⟩ mem.process.Allows mem
      (prepareWrite answers objects false mem address) := prepareWrite_changes mem answers _ _
  obtain ⟨tables, bottom, hprocess⟩ := hchanges.process
  unfold writePage at hdone
  dsimp only at hdone
  split at hdone
  · simp at hdone
  next hphysical =>
  cases hdone
  obtain ⟨entry, hentry, huser, hlookup⟩ := vmmLookupRoot_writable hlimit hphysical
  rw [hlookup]
  apply hkept.wrote
  · rw [hprocess]
  · exact stored_wrote hprivate hentry huser hlimit hpage

theorem writeLoop_wrote (fuel : ℕ) (h : Private mem) (hplain : Plain mem.process.vmas)
    (hlimit : address + bytes.length ≤ USER_LIMIT)
    (hdone : writeLoop answers objects false fuel mem address bytes = (true, next)) :
    Wrote mem address bytes next := by
  induction fuel generalizing mem address bytes with
  | zero =>
    rw [writeLoop] at hdone
    obtain ⟨hempty, rfl⟩ := Prod.mk.inj hdone
    rw [List.isEmpty_iff.1 hempty]
    exact Wrote.nil h address
  | succ fuel ih =>
    rw [writeLoop] at hdone
    by_cases hempty : bytes.isEmpty = true
    · rw [if_pos hempty] at hdone
      cases hdone
      rw [List.isEmpty_iff.1 hempty]
      exact Wrote.nil h address
    rw [if_neg hempty] at hdone
    dsimp only at hdone
    have hpos : 0 < bytes.length := by
      rw [List.isEmpty_iff] at hempty
      exact List.length_pos_iff.2 hempty
    generalize hamount : min bytes.length (NPK_PAGE_SIZE - address % NPK_PAGE_SIZE) = amount
      at hdone
    have hle : amount ≤ bytes.length := hamount ▸ min_le_left _ _
    have hroom : amount ≤ NPK_PAGE_SIZE - address % NPK_PAGE_SIZE := hamount ▸ min_le_right _ _
    have hmod : address % NPK_PAGE_SIZE < NPK_PAGE_SIZE := Nat.mod_lt _ (by decide)
    have htake : (bytes.take amount).length = amount := by
      rw [List.length_take]
      exact min_eq_left hle
    split at hdone
    · simp at hdone
    next middle hpage =>
    have hfirst := writePage_wrote answers objects h hplain (by omega) (by omega) hpage
    have hrest : Wrote middle (address + amount) (bytes.drop amount) next := by
      apply ih hfirst.secluded
      · rw [hfirst.vmas]
        exact hplain
      · rw [List.length_drop]
        omega
      · exact hdone
    have hboth : Wrote mem address (bytes.take amount ++ bytes.drop amount) next := by
      apply hfirst.append
      rw [htake]
      exact hrest
    rwa [List.take_append_drop] at hboth

theorem userStackWrite_wrote (h : Private mem) (hplain : Plain mem.process.vmas)
    (hdone : userStackWrite answers objects mem address bytes = (true, next)) :
    address + bytes.length ≤ USER_LIMIT ∧ Wrote mem address bytes next := by
  unfold userStackWrite kernelWrite at hdone
  split at hdone
  · simp at hdone
  next hrange =>
  have hlimit : address + bytes.length ≤ USER_LIMIT := by
    simp only [vmmIsUserRange, Bool.not_eq_true', Bool.not_eq_false] at hrange
    split at hrange
    · have := of_decide_eq_true hrange
      omega
    · simp only [Bool.and_eq_true, decide_eq_true_eq] at hrange
      omega
  exact ⟨hlimit, writeLoop_wrote answers objects _ h hplain hlimit hdone⟩

end writing

end NPKernel.Vm
