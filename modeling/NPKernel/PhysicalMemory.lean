import NPKernel.MachineWords

/-!
# The physical page allocator

One bit and one reference count per page of the first 4 GiB.  A count stops at
the largest value of its type.  Pages below 16 MiB and pages that the memory map
does not list as usable are marked used with count zero, and stay so.
-/

namespace NPKernel.Vm

def NPK_PAGE_SIZE : ℕ := 4096

def MAX_TRACKED_PAGES : ℕ := 2 ^ 20

def EARLY_RESERVED_END : ℕ := 0x1000000

/-- The allocator's tables, and what is stored in each page. -/
structure Frames where
  used : ℕ → Bool
  refs : ℕ → ℕ
  freePages : ℕ
  bytes : ℕ → ℕ → BitVec 8

structure MemmapEntry where
  base : ℕ
  length : ℕ
  usable : Bool

def initPage (frames : Frames) (page : ℕ) : Frames :=
  if page * NPK_PAGE_SIZE < EARLY_RESERVED_END then frames
  else if frames.used page then
    { frames with
      used := Function.update frames.used page false
      freePages := frames.freePages + 1 }
  else frames

def initEntry (frames : Frames) (entry : MemmapEntry) : Frames :=
  let first := entry.base / NPK_PAGE_SIZE
  let last := min ((entry.base + entry.length) % 2 ^ 64 / NPK_PAGE_SIZE) MAX_TRACKED_PAGES
  if !entry.usable || first ≥ last then frames
  else (List.range' first (last - first)).foldl initPage frames

def pmmInit (memmap : List MemmapEntry) (bytes : ℕ → ℕ → BitVec 8) : Frames :=
  memmap.foldl initEntry
    { used := fun _ => true, refs := fun _ => 0, freePages := 0, bytes := bytes }

def Frames.released (frames : Frames) (first count : ℕ) : Frames :=
  { frames with
    used := fun page => !(Nat.ble first page && Nat.blt page (first + count)) &&
      frames.used page
    freePages := frames.freePages + count }

theorem Frames.released_used (frames : Frames) (first count page : ℕ) :
    (frames.released first count).used page = true ↔
      ¬(first ≤ page ∧ page < first + count) ∧ frames.used page = true := by
  simp only [Frames.released, Nat.blt, Bool.and_eq_true, Bool.not_eq_true', Bool.eq_false_iff,
    ne_eq, Nat.ble_eq, Nat.succ_le_iff]

theorem foldl_initPage {first count : ℕ} (hearly : EARLY_RESERVED_END ≤ first * NPK_PAGE_SIZE)
    {frames : Frames} (hused : ∀ page, first ≤ page → page < first + count →
      frames.used page = true) :
    (List.range' first count).foldl initPage frames = frames.released first count := by
  induction count generalizing first frames with
  | zero =>
    have hsame : (frames.released first 0).used = frames.used := by
      funext page
      rw [Bool.eq_iff_iff, Frames.released_used]
      exact ⟨And.right, fun h => ⟨by omega, h⟩⟩
    exact congrArg (fun used => { frames with used := used }) hsame.symm
  | succ count ih =>
    have hfree : initPage frames first = { frames with
        used := Function.update frames.used first false
        freePages := frames.freePages + 1 } := by
      rw [initPage, if_neg (not_lt.2 hearly), if_pos (hused first le_rfl (by omega))]
    have hnext : EARLY_RESERVED_END ≤ (first + 1) * NPK_PAGE_SIZE :=
      hearly.trans (Nat.mul_le_mul_right _ (Nat.le_succ _))
    have hrest : ∀ page, first + 1 ≤ page → page < first + 1 + count →
        (initPage frames first).used page = true := by
      intro page hlow hhigh
      rw [hfree]
      change Function.update frames.used first false page = true
      rw [Function.update_of_ne (by omega)]
      exact hused page (by omega) (by omega)
    rw [List.range'_succ, List.foldl_cons, ih hnext hrest]
    have hsame : ((initPage frames first).released (first + 1) count).used =
        (frames.released first (count + 1)).used := by
      funext page
      rw [Bool.eq_iff_iff, Frames.released_used, Frames.released_used, hfree]
      change _ ∧ Function.update frames.used first false page = true ↔ _
      by_cases hpage : page = first
      · subst hpage
        simp
      · have hrange : (first + 1 ≤ page ∧ page < first + 1 + count) ↔
            first ≤ page ∧ page < first + (count + 1) := by omega
        rw [Function.update_of_ne hpage, hrange]
    rw [hfree] at hsame ⊢
    have hpages : frames.freePages + 1 + count = frames.freePages + (count + 1) := by omega
    exact congrArg₂ (fun used freePages => { frames with
      used := used, freePages := freePages }) hsame hpages

theorem pmmInit_range {first count : ℕ} (hearly : EARLY_RESERVED_END ≤ first * NPK_PAGE_SIZE)
    (hcount : 0 < count) (hlast : first + count ≤ MAX_TRACKED_PAGES) (bytes : ℕ → ℕ → BitVec 8) :
    pmmInit [{ base := first * NPK_PAGE_SIZE, length := count * NPK_PAGE_SIZE, usable := true }]
        bytes =
      { used := fun page => !(Nat.ble first page && Nat.blt page (first + count))
        refs := fun _ => 0, freePages := count, bytes := bytes } := by
  have hpositive : 0 < NPK_PAGE_SIZE := by decide
  have hsum : first * NPK_PAGE_SIZE + count * NPK_PAGE_SIZE = (first + count) * NPK_PAGE_SIZE :=
    (Nat.add_mul _ _ _).symm
  have hword : (first + count) * NPK_PAGE_SIZE < 2 ^ 64 :=
    (Nat.mul_le_mul_right _ hlast).trans_lt (by decide)
  rw [pmmInit, List.foldl_cons, List.foldl_nil, initEntry]
  simp only [hsum, Nat.mod_eq_of_lt hword, Nat.mul_div_cancel _ hpositive, min_eq_left hlast]
  rw [if_neg (by simp; omega), Nat.add_sub_cancel_left, foldl_initPage hearly fun _ _ _ => rfl]
  simp only [Frames.released, Bool.and_true, Nat.zero_add]

def findFreePage (used : ℕ → Bool) : ℕ → Option ℕ
  | 0 => none
  | left + 1 =>
    if used (MAX_TRACKED_PAGES - (left + 1)) then findFreePage used left
    else some (MAX_TRACKED_PAGES - (left + 1))

def pmmAllocPage (frames : Frames) : ℕ × Frames :=
  match findFreePage frames.used MAX_TRACKED_PAGES with
  | none => (0, frames)
  | some page =>
    (page * NPK_PAGE_SIZE,
      { frames with
        used := Function.update frames.used page true
        refs := Function.update frames.refs page 1
        freePages := frames.freePages - 1 })

def untracked (frames : Frames) (physical : ℕ) : Bool :=
  physical % NPK_PAGE_SIZE != 0 || decide (MAX_TRACKED_PAGES ≤ physical / NPK_PAGE_SIZE) ||
    !frames.used (physical / NPK_PAGE_SIZE)

def pmmRetainPage (frames : Frames) (physical : ℕ) : Frames :=
  let page := physical / NPK_PAGE_SIZE
  if untracked frames physical then frames
  else if frames.refs page = UINT32_MAX then frames
  else { frames with refs := Function.update frames.refs page (frames.refs page + 1) }

def pmmPageRefs (frames : Frames) (physical : ℕ) : ℕ :=
  if untracked frames physical then 0 else frames.refs (physical / NPK_PAGE_SIZE)

def pmmFreePage (frames : Frames) (physical : ℕ) : Frames :=
  let page := physical / NPK_PAGE_SIZE
  if untracked frames physical || frames.refs page == 0 then frames
  else
    let refs := Function.update frames.refs page (frames.refs page - 1)
    if refs page ≠ 0 then { frames with refs := refs }
    else
      { frames with
        used := Function.update frames.used page false
        refs := refs
        freePages := frames.freePages + 1 }

/-! ## The allocator by page numbers

Page table entries hold page numbers here, so the rest of the model calls the
allocator at multiples of the page size only. -/

def allocFrame (frames : Frames) : Option ℕ × Frames :=
  let result := pmmAllocPage frames
  if result.1 = 0 then (none, result.2) else (some (result.1 / NPK_PAGE_SIZE), result.2)

def retainFrame (frames : Frames) (frame : ℕ) : Frames :=
  pmmRetainPage frames (frame * NPK_PAGE_SIZE)

def frameRefs (frames : Frames) (frame : ℕ) : ℕ := pmmPageRefs frames (frame * NPK_PAGE_SIZE)

def freeFrame (frames : Frames) (frame : ℕ) : Frames :=
  pmmFreePage frames (frame * NPK_PAGE_SIZE)

def Frames.store (frames : Frames) (frame : ℕ) (contents : ℕ → BitVec 8) : Frames :=
  { frames with bytes := Function.update frames.bytes frame contents }

@[simp]
theorem Frames.store_used (frames : Frames) (frame : ℕ) (contents : ℕ → BitVec 8) :
    (frames.store frame contents).used = frames.used := rfl

theorem Frames.store_bytes (frames : Frames) (frame : ℕ) (contents : ℕ → BitVec 8) :
    (frames.store frame contents).bytes = Function.update frames.bytes frame contents := rfl

theorem Frames.store_self (frames : Frames) (frame : ℕ) :
    frames.store frame (frames.bytes frame) = frames := by
  rw [Frames.store, Function.update_eq_self]

section spec

variable {frames frames' : Frames} {frame : ℕ}

theorem untracked_frame (frames : Frames) (frame : ℕ) :
    untracked frames (frame * NPK_PAGE_SIZE) =
      (decide (MAX_TRACKED_PAGES ≤ frame) || !frames.used frame) := by
  have hmod : frame * NPK_PAGE_SIZE % NPK_PAGE_SIZE = 0 := Nat.mul_mod_left _ _
  have hdiv : frame * NPK_PAGE_SIZE / NPK_PAGE_SIZE = frame :=
    Nat.mul_div_cancel _ (by decide)
  simp [untracked, hmod, hdiv]

theorem findFreePage_spec (used : ℕ → Bool) {left found : ℕ} (hleft : left ≤ MAX_TRACKED_PAGES)
    (h : findFreePage used left = some found) :
    used found = false ∧ found < MAX_TRACKED_PAGES := by
  induction left with
  | zero => simp [findFreePage] at h
  | succ left ih =>
    by_cases hused : used (MAX_TRACKED_PAGES - (left + 1)) = true
    · rw [findFreePage, if_pos hused] at h
      exact ih (by omega) h
    · rw [findFreePage, if_neg hused] at h
      cases h
      exact ⟨by simpa using hused, by omega⟩

theorem allocFrame_some (h : allocFrame frames = (some frame, frames')) :
    frame ≠ 0 ∧ frame < MAX_TRACKED_PAGES ∧ frames.used frame = false ∧
      frames'.used = Function.update frames.used frame true ∧
      frames'.refs = Function.update frames.refs frame 1 ∧
      frames'.bytes = frames.bytes := by
  unfold allocFrame pmmAllocPage at h
  cases hfind : findFreePage frames.used MAX_TRACKED_PAGES with
  | none => simp [hfind] at h
  | some page =>
    obtain ⟨hfree, hlt⟩ := findFreePage_spec _ le_rfl hfind
    have hdiv : page * NPK_PAGE_SIZE / NPK_PAGE_SIZE = page :=
      Nat.mul_div_cancel _ (by decide)
    by_cases hzero : page * NPK_PAGE_SIZE = 0
    · simp [hfind, hzero] at h
    · simp only [hfind, if_neg hzero, hdiv, Prod.mk.injEq, Option.some.injEq] at h
      obtain ⟨rfl, rfl⟩ := h
      refine ⟨?_, hlt, hfree, rfl, rfl, rfl⟩
      rintro rfl
      exact hzero (Nat.zero_mul _)

theorem allocFrame_bytes (frames : Frames) : (allocFrame frames).2.bytes = frames.bytes := by
  unfold allocFrame pmmAllocPage
  cases findFreePage frames.used MAX_TRACKED_PAGES with
  | none => rfl
  | some page => dsimp only; split <;> rfl

theorem retainFrame_used : (retainFrame frames frame).used = frames.used := by
  unfold retainFrame pmmRetainPage
  dsimp only
  split
  · rfl
  · split <;> rfl

theorem freeFrame_bytes : (freeFrame frames frame).bytes = frames.bytes := by
  unfold freeFrame pmmFreePage
  dsimp only
  split
  · rfl
  · split <;> rfl

end spec

end NPKernel.Vm
