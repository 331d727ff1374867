import NPKernel.PageChanges
import NPKernel.IntervalLists

/-!
# What a call can do to the areas of a process

Every call changes the list of areas, the break and the mmap cursor of a process
by a few kinds of steps: a new area is put in front, an area other than the heap
is cut or split, protections of whole areas are replaced, or the break moves inside
the first heap area.  Faults and copies change none of them.
-/

namespace NPKernel.Vm

open IntervalLists Relation

/-! ## Layouts -/

structure Layout where
  vmas : List Vma
  brkStart : ℕ
  brkEnd : ℕ
  mmapCursor : ℕ

def UserProcess.layout (process : UserProcess) : Layout :=
  { vmas := process.vmas, brkStart := process.brkStart, brkEnd := process.brkEnd
    mmapCursor := process.mmapCursor }

abbrev Memory.layout (mem : Memory) : Layout := mem.process.layout

abbrev Vma.Apart : Vma → Vma → Prop := IntervalLists.Apart Vma.start Vma.stop

structure Vma.Ok (vma : Vma) : Prop where
  nonempty : vma.start < vma.stop
  start_aligned : vma.start % NPK_PAGE_SIZE = 0
  stop_aligned : vma.stop % NPK_PAGE_SIZE = 0
  low : NPK_USER_MIN ≤ vma.start
  high : vma.stop ≤ NPK_USER_MAX
  exclusive : writeAndExec vma.protection = false

structure Layout.Ok (layout : Layout) : Prop where
  each : ∀ vma ∈ layout.vmas, vma.Ok
  apart : layout.vmas.Pairwise Vma.Apart
  cursor : layout.mmapCursor % NPK_PAGE_SIZE = 0

theorem findVma_eq_lookup (vmas : List Vma) (address : ℕ) :
    findVma vmas address = lookup Vma.start Vma.stop vmas address := rfl

variable {vma : Vma} {address size start : ℕ} {mem next : Memory} {vmas : List Vma}
  {fresh : Vma → Prop} {grants : ℕ → ℕ → Word → Prop}

theorem Vma.contains_iff :
    vma.contains address = true ↔ vma.start ≤ address ∧ address < vma.stop := holds_iff

theorem Layout.Ok.findVma_of_mem {layout : Layout} (h : layout.Ok)
    (hmem : vma ∈ layout.vmas) (hstart : vma.start ≤ address) (hstop : address < vma.stop) :
    findVma layout.vmas address = some vma :=
  lookup_eq_some_of_mem h.apart hmem (holds_iff.2 ⟨hstart, hstop⟩)

/-! ## Steps -/

/-- One step of a call.  What is known of a new area is `fresh`, and of a new protection
and its range `grants`. -/
inductive AreaChange (fresh : Vma → Prop) (grants : ℕ → ℕ → Word → Prop) (layout : Layout) :
    Layout → Prop
  | cursor (cursor : ℕ) (haligned : cursor % NPK_PAGE_SIZE = 0) :
      AreaChange fresh grants layout { layout with mmapCursor := cursor }
  | inserted (vma : Vma) (hok : vma.Ok) (hfree : ∀ other ∈ layout.vmas, vma.Apart other)
      (hfresh : fresh vma) :
      AreaChange fresh grants layout { layout with vmas := vma :: layout.vmas }
  | cut (before : List Vma) (vma : Vma) (after : List Vma) (address stop : ℕ)
      (hvmas : layout.vmas = before ++ vma :: after)
      (hheap : hasBit vma.flags NPK_MAP_HEAP = false)
      (haddress : address % NPK_PAGE_SIZE = 0) (hstop : stop % NPK_PAGE_SIZE = 0)
      (hlow : vma.start ≤ address) (hlt : address < stop) (hhigh : stop ≤ vma.stop) :
      AreaChange fresh grants layout
        { layout with vmas := before ++ (vma.cut address stop ++ after) }
  | split (before : List Vma) (vma : Vma) (after : List Vma) (point : ℕ)
      (hvmas : layout.vmas = before ++ vma :: after)
      (hheap : hasBit vma.flags NPK_MAP_HEAP = false)
      (hpoint : point % NPK_PAGE_SIZE = 0) (hlow : vma.start < point)
      (hhigh : point < vma.stop) :
      AreaChange fresh grants layout { layout with vmas := before ++ (vma.splitAt point ++ after) }
  | reprotected (address stop : ℕ) (protection : Word)
      (hheap : ∀ vma ∈ layout.vmas, address ≤ vma.start → vma.stop ≤ stop →
        hasBit vma.flags NPK_MAP_HEAP = false)
      (hexclusive : writeAndExec protection = false) (hgrants : grants address stop protection) :
      AreaChange fresh grants layout
        { layout with vmas := layout.vmas.map (Vma.protect address stop protection) }
  | brk (heap : Vma) (newEnd : ℕ) (hheap : findHeapVma layout.vmas = some heap)
      (hlow : heap.start ≤ newEnd) (hhigh : newEnd ≤ heap.stop) :
      AreaChange fresh grants layout { layout with brkEnd := newEnd }

abbrev AreaChanges (fresh : Vma → Prop) (grants : ℕ → ℕ → Word → Prop) : Layout → Layout → Prop :=
  ReflTransGen (AreaChange fresh grants)

section weaker

variable {fresh fresh' : Vma → Prop} {grants grants' : ℕ → ℕ → Word → Prop}
  {before after : Layout}

theorem AreaChange.mono (hfresh : ∀ vma, fresh vma → fresh' vma)
    (hgrants : ∀ first stop protection, grants first stop protection →
      grants' first stop protection)
    (h : AreaChange fresh grants before after) : AreaChange fresh' grants' before after := by
  cases h with
  | cursor cursor haligned => exact .cursor cursor haligned
  | inserted vma hok hfree hnew => exact .inserted vma hok hfree (hfresh vma hnew)
  | cut before vma after address stop hvmas hheap haddress hstop hlow hlt hhigh =>
    exact .cut before vma after address stop hvmas hheap haddress hstop hlow hlt hhigh
  | split before vma after point hvmas hheap hpoint hlow hhigh =>
    exact .split before vma after point hvmas hheap hpoint hlow hhigh
  | reprotected address stop protection hheap hexclusive hgranted =>
    exact .reprotected address stop protection hheap hexclusive
      (hgrants address stop protection hgranted)
  | brk heap newEnd hheap hlow hhigh => exact .brk heap newEnd hheap hlow hhigh

theorem AreaChanges.mono (hfresh : ∀ vma, fresh vma → fresh' vma)
    (hgrants : ∀ first stop protection, grants first stop protection →
      grants' first stop protection)
    (h : AreaChanges fresh grants before after) : AreaChanges fresh' grants' before after :=
  ReflTransGen.mono (fun _ _ => AreaChange.mono hfresh hgrants) _ _ h

end weaker

/-! ## Pieces of an area -/

structure Vma.Part (part vma : Vma) : Prop where
  flags : part.flags = vma.flags
  handle : part.backingHandle = vma.backingHandle
  within : Within Vma.start Vma.stop part vma

structure Vma.Piece (piece vma : Vma) : Prop extends piece.Part vma where
  protection : piece.protection = vma.protection

section pieces

variable {vma piece : Vma} {address stop point : ℕ}

theorem Vma.mem_cut (hlow : vma.start ≤ address) (hlt : address < stop)
    (hhigh : stop ≤ vma.stop) (h : piece ∈ vma.cut address stop) :
    piece.Piece vma ∧ ((piece.start = vma.start ∧ piece.stop = address ∧ vma.start < address) ∨
      (piece.start = stop ∧ piece.stop = vma.stop ∧ stop < vma.stop)) := by
  unfold Vma.cut at h
  dsimp only at h
  split at h
  next hmiddle =>
    rcases List.mem_pair.1 h with rfl | rfl
    · exact ⟨⟨⟨rfl, rfl, le_rfl, hlt.le.trans hhigh⟩, rfl⟩, Or.inl ⟨rfl, rfl, hmiddle.1⟩⟩
    · exact ⟨⟨⟨rfl, rfl, hlow.trans hlt.le, le_rfl⟩, rfl⟩, Or.inr ⟨rfl, rfl, hmiddle.2⟩⟩
  next hmiddle =>
    split at h
    · simp at h
    next hwhole =>
    split at h
    next hleft =>
      obtain rfl := List.mem_singleton.1 h
      exact ⟨⟨⟨rfl, rfl, hlow.trans hlt.le, le_rfl⟩, rfl⟩, Or.inr ⟨rfl, rfl, by omega⟩⟩
    · obtain rfl := List.mem_singleton.1 h
      exact ⟨⟨⟨rfl, rfl, le_rfl, hlt.le.trans hhigh⟩, rfl⟩, Or.inl ⟨rfl, rfl, by omega⟩⟩

theorem Vma.exists_mem_cut {x : ℕ} (hlow : vma.start ≤ address) (hhigh : stop ≤ vma.stop)
    (hx : vma.start ≤ x ∧ x < vma.stop) (hout : ¬(address ≤ x ∧ x < stop)) :
    ∃ piece ∈ vma.cut address stop, holds Vma.start Vma.stop x piece = true := by
  unfold Vma.cut
  dsimp only
  simp only [holds_iff]
  split
  · by_cases hleft : x < address
    · exact ⟨_, List.mem_cons_self, hx.1, hleft⟩
    · exact ⟨_, List.mem_cons_of_mem _ List.mem_cons_self, by dsimp only; omega, hx.2⟩
  · split
    · omega
    · split
      · exact ⟨_, List.mem_cons_self, by dsimp only; omega, hx.2⟩
      · exact ⟨_, List.mem_cons_self, hx.1, by dsimp only; omega⟩

theorem Vma.cut_pairwise (hlt : address < stop) : (vma.cut address stop).Pairwise Vma.Apart := by
  unfold Vma.cut
  dsimp only
  split
  · exact List.pairwise_pair.2 (Or.inl hlt.le)
  · split
    · exact List.Pairwise.nil
    · split <;> exact List.pairwise_singleton _ _

theorem Vma.mem_splitAt (hlow : vma.start < point) (hhigh : point < vma.stop)
    (h : piece ∈ vma.splitAt point) :
    piece.Piece vma ∧ ((piece.start = vma.start ∧ piece.stop = point) ∨
      (piece.start = point ∧ piece.stop = vma.stop)) := by
  rcases List.mem_pair.1 h with rfl | rfl
  · exact ⟨⟨⟨rfl, rfl, le_rfl, hhigh.le⟩, rfl⟩, Or.inl ⟨rfl, rfl⟩⟩
  · exact ⟨⟨⟨rfl, rfl, hlow.le, le_rfl⟩, rfl⟩, Or.inr ⟨rfl, rfl⟩⟩

theorem Vma.splitAt_pairwise : (vma.splitAt point).Pairwise Vma.Apart :=
  List.pairwise_pair.2 (Or.inl le_rfl)

theorem Vma.Ok.of_piece (h : vma.Ok) (hpiece : piece.Piece vma)
    (hnonempty : piece.start < piece.stop) (hstart : piece.start % NPK_PAGE_SIZE = 0)
    (hstop : piece.stop % NPK_PAGE_SIZE = 0) : piece.Ok where
  nonempty := hnonempty
  start_aligned := hstart
  stop_aligned := hstop
  low := h.low.trans hpiece.within.1
  high := hpiece.within.2.trans h.high
  exclusive := hpiece.protection ▸ h.exclusive

theorem Vma.protect_start (address stop : ℕ) (protection : Word) (vma : Vma) :
    (vma.protect address stop protection).start = vma.start := by
  unfold Vma.protect
  split <;> rfl

theorem Vma.protect_stop (address stop : ℕ) (protection : Word) (vma : Vma) :
    (vma.protect address stop protection).stop = vma.stop := by
  unfold Vma.protect
  split <;> rfl

theorem Vma.protect_part (address stop : ℕ) (protection : Word) (vma : Vma) :
    (vma.protect address stop protection).Part vma := by
  unfold Vma.protect
  split <;> exact ⟨rfl, rfl, le_rfl, le_rfl⟩

theorem Vma.Ok.protect (h : vma.Ok) (address stop : ℕ) {protection : Word}
    (hexclusive : writeAndExec protection = false) :
    (vma.protect address stop protection).Ok := by
  unfold Vma.protect
  split
  · exact h
  · exact { h with exclusive := hexclusive }

end pieces

/-! ## Steps keep layouts well formed -/

section keep

variable {fresh : Vma → Prop} {grants : ℕ → ℕ → Word → Prop} {layout next : Layout}

theorem Layout.Ok.replace (h : layout.Ok) {before after pieces : List Vma} {vma : Vma}
    (hvmas : layout.vmas = before ++ vma :: after)
    (hwithin : ∀ piece ∈ pieces, Within Vma.start Vma.stop piece vma)
    (hok : ∀ piece ∈ pieces, piece.Ok) (hpieces : pieces.Pairwise Vma.Apart) :
    Layout.Ok { layout with vmas := before ++ (pieces ++ after) } where
  each := by
    intro area harea
    have hold : ∀ other ∈ before ++ after, other.Ok := by
      intro other hother
      refine h.each other ?_
      rw [hvmas]
      simp only [List.mem_append, List.mem_cons] at hother ⊢
      tauto
    rcases List.mem_append.1 harea with harea | harea
    · exact hold area (List.mem_append_left after harea)
    · rcases List.mem_append.1 harea with harea | harea
      · exact hok area harea
      · exact hold area (List.mem_append_right before harea)
  apart := pairwise_replace (hvmas ▸ h.apart) hwithin hpieces
  cursor := h.cursor

theorem Layout.Ok.afterChange (h : layout.Ok) (hchange : AreaChange fresh grants layout next) :
    next.Ok := by
  cases hchange with
  | cursor cursor haligned => exact { h with cursor := haligned }
  | inserted vma hok hfree hfresh =>
    refine ⟨?_, List.pairwise_cons.2 ⟨hfree, h.apart⟩, h.cursor⟩
    intro other hother
    rcases List.mem_cons.1 hother with rfl | hother
    · exact hok
    · exact h.each other hother
  | cut before vma after address stop hvmas hheap haddress hstop hlow hlt hhigh =>
    have hvma : vma.Ok := h.each vma (by simp [hvmas])
    refine h.replace hvmas (fun piece hpiece => (Vma.mem_cut hlow hlt hhigh hpiece).1.within)
      ?_ (Vma.cut_pairwise hlt)
    intro piece hpiece
    obtain ⟨hpart, ⟨hstart, hend, hne⟩ | ⟨hstart, hend, hne⟩⟩ :=
      Vma.mem_cut hlow hlt hhigh hpiece
    · exact hvma.of_piece hpart (by omega) (hstart ▸ hvma.start_aligned) (hend ▸ haddress)
    · exact hvma.of_piece hpart (by omega) (hstart ▸ hstop) (hend ▸ hvma.stop_aligned)
  | split before vma after point hvmas hheap hpoint hlow hhigh =>
    have hvma : vma.Ok := h.each vma (by simp [hvmas])
    refine h.replace hvmas (fun piece hpiece => (Vma.mem_splitAt hlow hhigh hpiece).1.within)
      ?_ Vma.splitAt_pairwise
    intro piece hpiece
    obtain ⟨hpart, ⟨hstart, hend⟩ | ⟨hstart, hend⟩⟩ := Vma.mem_splitAt hlow hhigh hpiece
    · exact hvma.of_piece hpart (by omega) (hstart ▸ hvma.start_aligned) (hend ▸ hpoint)
    · exact hvma.of_piece hpart (by omega) (hstart ▸ hpoint) (hend ▸ hvma.stop_aligned)
  | reprotected address stop protection hheap hexclusive =>
    refine ⟨?_, ?_, h.cursor⟩
    · intro area harea
      obtain ⟨vma, hvma, rfl⟩ := List.mem_map.1 harea
      exact (h.each vma hvma).protect address stop hexclusive
    · refine List.pairwise_map.2 (h.apart.imp ?_)
      intro a b hab
      simpa only [Vma.Apart, Apart, Vma.protect_start, Vma.protect_stop] using hab
  | brk heap newEnd hheap hlow hhigh => exact { h with }

theorem Layout.Ok.afterChanges (h : layout.Ok) (hchanges : AreaChanges fresh grants layout next) :
    next.Ok := by
  induction hchanges with
  | refl => exact h
  | tail _ hchange ih => exact ih.afterChange hchange

variable {P : Vma → Prop}

/-- What holds of every area, and of every part of an area of which it holds, still
holds of every area after a call. -/
theorem AreaChange.all (hfresh : ∀ vma, fresh vma → P vma)
    (hpart : ∀ part vma : Vma, part.Part vma → P vma → P part)
    (hall : ∀ vma ∈ layout.vmas, P vma) (hchange : AreaChange fresh grants layout next) :
    ∀ vma ∈ next.vmas, P vma := by
  have hreplace : ∀ (before after pieces : List Vma) (vma : Vma),
      layout.vmas = before ++ vma :: after → (∀ piece ∈ pieces, piece.Part vma) →
      ∀ area ∈ before ++ (pieces ++ after), P area := by
    intro before after pieces vma hvmas hpieces area harea
    simp only [hvmas, List.mem_append, List.mem_cons] at hall harea
    rcases harea with harea | harea | harea
    · exact hall area (Or.inl harea)
    · exact hpart area vma (hpieces area harea) (hall vma (Or.inr (Or.inl rfl)))
    · exact hall area (Or.inr (Or.inr harea))
  cases hchange with
  | cursor cursor haligned => exact hall
  | inserted vma hok hfree hnew =>
    intro area harea
    rcases List.mem_cons.1 harea with rfl | harea
    · exact hfresh area hnew
    · exact hall area harea
  | cut before vma after address stop hvmas hheap haddress hstop hlow hlt hhigh =>
    exact hreplace before after _ vma hvmas fun piece hpiece =>
      (Vma.mem_cut hlow hlt hhigh hpiece).1.toPart
  | split before vma after point hvmas hheap hpoint hlow hhigh =>
    exact hreplace before after _ vma hvmas fun piece hpiece =>
      (Vma.mem_splitAt hlow hhigh hpiece).1.toPart
  | reprotected address stop protection hheap hexclusive =>
    intro area harea
    obtain ⟨vma, hvma, rfl⟩ := List.mem_map.1 harea
    exact hpart _ vma (vma.protect_part address stop protection) (hall vma hvma)
  | brk heap newEnd hheap hlow hhigh => exact hall

theorem AreaChanges.all (hfresh : ∀ vma, fresh vma → P vma)
    (hpart : ∀ part vma : Vma, part.Part vma → P vma → P part)
    (hall : ∀ vma ∈ layout.vmas, P vma) (hchanges : AreaChanges fresh grants layout next) :
    ∀ vma ∈ next.vmas, P vma := by
  induction hchanges with
  | refl => exact hall
  | tail _ hchange ih => exact hchange.all hfresh hpart ih

end keep

theorem PageChanges.layout {sources : Sources} {allowed : ℕ → PageFlags → Prop}
    (h : PageChanges sources allowed mem next) :
    next.layout = mem.layout := by
  obtain ⟨tables, bottom, hprocess⟩ := h.process
  rw [Memory.layout, hprocess]
  rfl

theorem unmapPages_layout (count page : ℕ) (mem : Memory) :
    (unmapPages count page mem).layout = mem.layout := by
  induction count generalizing page mem with
  | zero => rfl
  | succ count ih => exact ih _ _

/-! ## Reservations -/

theorem pageAlign_mod (value : ℕ) : pageAlign value % NPK_PAGE_SIZE = 0 := Nat.mul_mod_left _ _

theorem pageAlignUp_eq_some {value : ℕ} (h : pageAlignUp value = some size) :
    size % NPK_PAGE_SIZE = 0 ∧ value ≤ size ∧ size < value + NPK_PAGE_SIZE := by
  unfold pageAlignUp at h
  split at h
  · simp at h
  · cases h
    simp only [NPK_PAGE_SIZE]
    omega

theorem overlaps_eq_false {stop : ℕ}
    (h : overlaps vmas start stop = false) (hstart : vma.start = start)
    (hstop : vma.stop = stop) : ∀ other ∈ vmas, vma.Apart other := by
  intro other hother
  have hno := List.any_eq_false.1 h other hother
  simp only [Bool.and_eq_true, decide_eq_true_eq, not_and, not_lt] at hno
  unfold Vma.Apart Apart
  omega

def Vma.plain (start size : ℕ) (protection flags : Word) : Vma :=
  { start := start, stop := start + size, protection := protection, flags := flags
    backingHandle := none, backingOffset := 0, backingSize := 0 }

theorem findGap_mod {fuel found : ℕ}
    (h : findGap vmas size fuel start = some found) (hstart : start % NPK_PAGE_SIZE = 0) :
    found % NPK_PAGE_SIZE = 0 := by
  induction fuel generalizing start with
  | zero => simp [findGap] at h
  | succ fuel ih =>
    rw [findGap] at h
    split at h
    · dsimp only at h
      split at h
      · simp at h
      · exact ih h (by simp only [NPK_PAGE_SIZE] at hstart ⊢; omega)
    · cases h
      exact hstart

theorem chooseStart_mod {process : UserProcess} {hint : ℕ} {flags : Word}
    (hcursor : process.mmapCursor % NPK_PAGE_SIZE = 0)
    (h : chooseStart process hint size flags = .ok start) : start % NPK_PAGE_SIZE = 0 := by
  unfold chooseStart at h
  split at h
  · split at h
    · simp at h
    next haligned =>
      obtain rfl := Except.ok.inj h
      simpa using haligned
  · dsimp only at h
    split at h
    · simp at h
    next found hgap =>
    obtain rfl := Except.ok.inj h
    have hbase : VM_USER_MMAP_BASE % NPK_PAGE_SIZE = 0 := by decide
    have hhint := pageAlign_mod hint
    refine findGap_mod hgap ?_
    split_ifs <;> assumption

def Memory.reserve (mem : Memory) (vma : Vma) : Memory :=
  { mem with
    process :=
      { mem.process with
        vmas := vma :: mem.process.vmas
        mmapCursor := vma.stop + NPK_PAGE_SIZE } }

theorem vmMapAnonymous_cases (answers : Answers) (hint length : ℕ)
    (protection flags : Word) (hcursor : mem.layout.mmapCursor % NPK_PAGE_SIZE = 0) :
    (∃ code, vmMapAnonymous answers mem hint length protection flags = (.error code, mem)) ∨
      ∃ start size, pageAlignUp length = some size ∧
        (Vma.plain start size protection flags).Ok ∧
        (∀ other ∈ mem.process.vmas, (Vma.plain start size protection flags).Apart other) ∧
        vmMapAnonymous answers mem hint length protection flags =
          (.ok start, mem.reserve (Vma.plain start size protection flags)) := by
  fun_cases vmMapAnonymous answers mem hint length protection flags with
  | case7 hflags size hsize hpositive start hstart hrange =>
    right
    simp only [Bool.or_eq_true, decide_eq_true_eq, not_or, not_lt] at hflags hpositive hrange
    obtain ⟨haligned, -⟩ := pageAlignUp_eq_some hsize
    have hmod := chooseStart_mod hcursor hstart
    refine ⟨start, size, hsize, ?_, ?_, rfl⟩
    · exact
        { nonempty := Nat.lt_add_of_pos_right (Nat.pos_of_ne_zero hpositive.1)
          start_aligned := hmod
          stop_aligned := by simp [Vma.plain, Nat.add_mod, hmod, haligned]
          low := hrange.1.1.1
          high := hrange.1.2
          exclusive := Bool.eq_false_iff.2 hflags.2 }
    · exact overlaps_eq_false (Bool.eq_false_iff.2 hrange.2) rfl rfl
  | _ => exact Or.inl ⟨_, rfl⟩

/-! ## Unmapping -/

theorem replaceFirst_of_find {test : Vma → Bool} (h : vmas.find? test = some vma) :
    test vma = true ∧ ∃ before after, vmas = before ++ vma :: after ∧
      ∀ replace, replaceFirst test replace vmas = before ++ (replace vma ++ after) := by
  induction vmas with
  | nil => simp at h
  | cons first rest ih =>
    by_cases htest : test first = true
    · rw [List.find?_cons_of_pos htest] at h
      cases h
      exact ⟨htest, [], rest, rfl, fun replace => by simp [replaceFirst, htest]⟩
    · rw [List.find?_cons_of_neg htest] at h
      obtain ⟨hvma, before, after, rfl, hreplace⟩ := ih h
      refine ⟨hvma, first :: before, after, rfl, fun replace => ?_⟩
      rw [replaceFirst, if_neg htest, hreplace replace]
      rfl

theorem vmUnmap_cases (answers : Answers) (mem : Memory) (address length : ℕ) :
    ((vmUnmap answers mem address length).1 < 0 ∧
        (vmUnmap answers mem address length).2 = mem) ∨
      ∃ size before vma after, pageAlignUp length = some size ∧ 0 < size ∧
        address % NPK_PAGE_SIZE = 0 ∧ mem.process.vmas = before ++ vma :: after ∧
        vma.start ≤ address ∧ address + size ≤ vma.stop ∧
        hasBit vma.flags NPK_MAP_HEAP = false ∧
        vmUnmap answers mem address length =
          (0, unmapPages (pagesBetween address (address + size)) address
            (mem.setVmas (before ++ (vma.cut address (address + size) ++ after)))) := by
  fun_cases vmUnmap answers mem address length with
  | case7 hargs size hsize _ _ inside vma hfind _ hheap =>
    right
    obtain ⟨hinside, before, after, hvmas, hreplace⟩ := replaceFirst_of_find hfind
    obtain ⟨-, hlength, -⟩ := pageAlignUp_eq_some hsize
    simp +zetaDelta only [ne_eq, Bool.or_eq_true, decide_eq_true_eq, not_or, not_not,
      Bool.and_eq_true] at hargs hinside hreplace ⊢
    refine ⟨size, before, vma, after, hsize, by omega, hargs.1, hvmas,
      hinside.1, hinside.2, by simpa using hheap, ?_⟩
    rw [hreplace]
  | _ => exact Or.inl ⟨by simp +decide, rfl⟩

theorem vmUnmap_changes (answers : Answers) (mem : Memory) (address length : ℕ) :
    AreaChanges fresh grants mem.layout (vmUnmap answers mem address length).2.layout := by
  rcases vmUnmap_cases answers mem address length with ⟨-, hsame⟩ |
    ⟨size, before, vma, after, hsize, hpositive, haligned, hvmas, hlow, hhigh, hheap, heq⟩
  · rw [hsame]
  obtain ⟨hmod, -⟩ := pageAlignUp_eq_some hsize
  rw [heq, unmapPages_layout]
  exact .single (.cut before vma after address (address + size) hvmas hheap haligned
    (by simp [Nat.add_mod, haligned, hmod]) hlow (by omega) hhigh)

theorem vmRevokeDeviceMappings_changes (answers : Answers) (mem : Memory) :
    AreaChanges fresh grants mem.layout (vmRevokeDeviceMappings answers mem).layout := by
  unfold vmRevokeDeviceMappings
  generalize mem.process.vmas = vmas
  induction vmas generalizing mem with
  | nil => exact .refl
  | cons vma rest ih =>
    rw [List.foldl_cons]
    split
    · exact (vmUnmap_changes answers mem _ _).trans (ih _)
    · exact ih mem

/-! ## Mapping calls -/

/-- What is known of an area that a mapping call with these flags made: its flags up to
the anonymous bit, and its backing object. -/
def Vma.MadeBy (flags marks : Word) (handle : Option ℕ) (vma : Vma) : Prop :=
  vma.flags ||| NPK_MAP_ANONYMOUS = flags ||| marks ||| NPK_MAP_ANONYMOUS ∧
    vma.backingHandle = handle

theorem mapDevicePages_layout {flags : PageFlags} {count page frame : ℕ}
    {done : Bool} (h : mapDevicePages flags count page frame mem = (done, next)) :
    next.layout = mem.layout := by
  induction count generalizing page frame mem with
  | zero =>
    cases h
    rfl
  | succ count ih =>
    rw [mapDevicePages] at h
    split at h
    next hmap =>
      cases h
      obtain ⟨tables, hprocess⟩ := Memory.mapPage_process hmap
      rw [Memory.layout, hprocess]
      rfl
    next hmap =>
      obtain ⟨tables, hprocess⟩ := Memory.mapPage_process hmap
      rw [ih h, Memory.layout, hprocess]
      rfl

theorem or_and_not_or_or (flags mask marks : Word) :
    (flags ||| mask) &&& ~~~mask ||| marks ||| mask = flags ||| marks ||| mask := by
  ext i hi
  simp only [BitVec.getElem_or, BitVec.getElem_and, BitVec.getElem_not]
  cases flags[i] <;> cases mask[i] <;> cases marks[i] <;> rfl

section mappings

variable {fresh : Vma → Prop} {grants : ℕ → ℕ → Word → Prop} {mem : Memory} {answers : Answers}

theorem Memory.reserve_changes {vma : Vma} (hok : vma.Ok)
    (hfree : ∀ other ∈ mem.process.vmas, vma.Apart other) (hfresh : fresh vma) :
    AreaChanges fresh grants mem.layout (mem.reserve vma).layout := by
  have hinserted : AreaChange fresh grants mem.layout
      { mem.layout with vmas := vma :: mem.layout.vmas } := .inserted vma hok hfree hfresh
  have haligned : (vma.stop + NPK_PAGE_SIZE) % NPK_PAGE_SIZE = 0 := by
    rw [Nat.add_mod_right]
    exact hok.stop_aligned
  exact (ReflTransGen.single hinserted).tail (.cursor _ haligned)

end mappings

/-! ## Reservations of the loader, the heap and its break -/

section reservations

variable {fresh : Vma → Prop} {grants : ℕ → ℕ → Word → Prop} {mem : Memory}

theorem vmReserveRange_cases (kmalloc : Bool) (mem : Memory) (start length : ℕ)
    (protection flags : Word) :
    ((vmReserveRange kmalloc mem start length protection flags).1 < 0 ∧
        (vmReserveRange kmalloc mem start length protection flags).2 = mem) ∨
      ∃ size, pageAlignUp length = some size ∧ (Vma.plain start size protection flags).Ok ∧
        (∀ other ∈ mem.process.vmas, (Vma.plain start size protection flags).Apart other) ∧
        vmReserveRange kmalloc mem start length protection flags =
          (0, mem.setVmas (Vma.plain start size protection flags :: mem.process.vmas)) := by
  have heinval : VM_EINVAL < 0 := by decide
  have henomem : VM_ENOMEM < 0 := by decide
  unfold vmReserveRange
  split
  · exact Or.inl ⟨heinval, rfl⟩
  next size hsize =>
  split
  · exact Or.inl ⟨heinval, rfl⟩
  next hargs =>
  split
  · exact Or.inl ⟨henomem, rfl⟩
  right
  simp only [ne_eq, Bool.or_eq_true, decide_eq_true_eq, not_or, not_not, not_lt] at hargs
  obtain ⟨⟨⟨⟨⟨⟨⟨⟨hmin, haligned⟩, -⟩, hpositive⟩, -⟩, hmax⟩, -⟩, hexclusive⟩, hfree⟩ :=
    hargs
  obtain ⟨hmod, -⟩ := pageAlignUp_eq_some hsize
  refine ⟨size, hsize, ?_, overlaps_eq_false (Bool.eq_false_iff.2 hfree) rfl rfl, rfl⟩
  exact
    { nonempty := Nat.lt_add_of_pos_right (Nat.pos_of_ne_zero hpositive)
      start_aligned := haligned
      stop_aligned := by simp [Vma.plain, Nat.add_mod, haligned, hmod]
      low := hmin
      high := hmax
      exclusive := Bool.eq_false_iff.2 hexclusive }

theorem vmReserveRange_changes (kmalloc : Bool) (start length : ℕ) (protection flags : Word)
    (hfresh : ∀ size, fresh (Vma.plain start size protection flags)) :
    AreaChanges fresh grants mem.layout
      (vmReserveRange kmalloc mem start length protection flags).2.layout := by
  rcases vmReserveRange_cases kmalloc mem start length protection flags with
    ⟨-, hsame⟩ | ⟨size, -, hok, hfree, heq⟩
  · rw [hsame]
  · rw [heq]
    exact .single (.inserted _ hok hfree (hfresh size))

theorem vmResizeHeap_changes (mem : Memory) (newEnd : ℕ) :
    AreaChanges fresh grants mem.layout (vmResizeHeap mem newEnd).2.layout := by
  unfold vmResizeHeap
  split
  · exact .refl
  next heap hheap =>
  split
  · exact .refl
  next hrange =>
  simp only [ne_eq, Bool.or_eq_true, decide_eq_true_eq, not_or, not_not, not_lt] at hrange
  have hbrk : AreaChanges fresh grants mem.layout { mem.layout with brkEnd := newEnd } :=
    .single (.brk heap newEnd hheap hrange.1.2 hrange.2)
  dsimp only
  split
  · change AreaChanges fresh grants mem.layout
      { (unmapPages _ newEnd mem).layout with brkEnd := newEnd }
    rw [unmapPages_layout]
    exact hbrk
  · exact hbrk

theorem sysBrk_changes (mem : Memory) (requested : ℕ) :
    AreaChanges fresh grants mem.layout (sysBrk mem requested).2.layout := by
  have hresize : ∀ target, AreaChanges fresh grants mem.layout (vmResizeHeap mem target).2.layout :=
    vmResizeHeap_changes mem
  unfold sysBrk
  split
  · exact .refl
  split
  · exact .refl
  · dsimp only
    split <;> exact hresize _

end reservations

end NPKernel.Vm
