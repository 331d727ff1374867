import NPKernel.AreaChanges

/-!
# Splits, cuts and protections of areas

What the areas say of an address: a split changes nothing of it, a cut takes its
range away, and a protection call that succeeds replaces the protection on its
range.  A protection call that fails after its first split has changed nothing of
it either.
-/

namespace NPKernel.Vm

open IntervalLists Relation

section protections

variable {layout : Layout} {before after vmas : List Vma} {vma : Vma}
  {address stop point x : ℕ}

theorem Layout.Ok.findVma_split {β : Type*} (h : layout.Ok)
    (hvmas : layout.vmas = before ++ vma :: after) (hlow : vma.start < point)
    (hhigh : point < vma.stop) (f : Vma → β)
    (hf : ∀ piece : Vma, piece.Piece vma → f piece = f vma) (x : ℕ) :
    (findVma (before ++ (vma.splitAt point ++ after)) x).map f = (findVma layout.vmas x).map f := by
  have hwithin : ∀ piece ∈ vma.splitAt point, Within Vma.start Vma.stop piece vma :=
    fun piece hpiece => (Vma.mem_splitAt hlow hhigh hpiece).1.within
  rw [findVma_eq_lookup, lookup_replace (hvmas ▸ h.apart) hwithin]
  split
  next hholds =>
    have hx := holds_iff.1 hholds
    rw [h.findVma_of_mem (by simp [hvmas]) hx.1 hx.2]
    obtain ⟨piece, hpiece⟩ : ∃ piece, lookup Vma.start Vma.stop (vma.splitAt point) x =
        some piece := by
      by_cases hleft : x < point
      · exact ⟨_, List.find?_cons_of_pos (holds_iff.2 ⟨hx.1, hleft⟩)⟩
      · refine ⟨_, (List.find?_cons_of_neg ?_).trans
          (List.find?_cons_of_pos (holds_iff.2 ⟨not_lt.1 hleft, hx.2⟩))⟩
        rw [holds_iff]
        exact fun hcontra => hleft hcontra.2
    obtain ⟨hmem, -⟩ := lookup_mem hpiece
    rw [hpiece, Option.map_some, Option.map_some, hf piece (Vma.mem_splitAt hlow hhigh hmem).1]
  · rw [hvmas, findVma_eq_lookup]

theorem Layout.Ok.findVma_cut {β : Type*} (h : layout.Ok)
    (hvmas : layout.vmas = before ++ vma :: after) (hlow : vma.start ≤ address)
    (hlt : address < stop) (hhigh : stop ≤ vma.stop) (f : Vma → β)
    (hf : ∀ piece : Vma, piece.Piece vma → f piece = f vma) (x : ℕ) :
    (findVma (before ++ (vma.cut address stop ++ after)) x).map f =
      if address ≤ x ∧ x < stop then none else (findVma layout.vmas x).map f := by
  have hwithin : ∀ piece ∈ vma.cut address stop, Within Vma.start Vma.stop piece vma :=
    fun piece hpiece => (Vma.mem_cut hlow hlt hhigh hpiece).1.within
  rw [findVma_eq_lookup, lookup_replace (hvmas ▸ h.apart) hwithin]
  split
  next hholds =>
    have hx := holds_iff.1 hholds
    rw [h.findVma_of_mem (by simp [hvmas]) hx.1 hx.2]
    cases hpiece : lookup Vma.start Vma.stop (vma.cut address stop) x with
    | some piece =>
      obtain ⟨hmem, hstart, hstop⟩ := lookup_mem hpiece
      obtain ⟨hpart, hside⟩ := Vma.mem_cut hlow hlt hhigh hmem
      rw [if_neg (by omega), Option.map_some, Option.map_some, hf piece hpart]
    | none =>
      by_cases hin : address ≤ x ∧ x < stop
      · rw [if_pos hin, Option.map_none]
      · obtain ⟨piece, hmem, hholds'⟩ := Vma.exists_mem_cut hlow hhigh hx hin
        have hnot := lookup_eq_none.1 hpiece piece hmem
        simp [hholds'] at hnot
  next hholds =>
    rw [if_neg, hvmas, findVma_eq_lookup]
    intro hx
    exact hholds (holds_iff.2 ⟨hlow.trans hx.1, hx.2.trans_le hhigh⟩)

theorem protectable_sound {fuel cursor : ℕ} (h : protectable vmas stop fuel cursor = true)
    (hx : cursor ≤ x) (hlt : x < stop) :
    ∃ vma ∈ vmas, vma.start ≤ x ∧ x < vma.stop ∧ hasBit vma.flags NPK_MAP_HEAP = false := by
  induction fuel generalizing cursor with
  | zero =>
    have hle : stop ≤ cursor := by simpa [protectable] using h
    omega
  | succ fuel ih =>
    rw [protectable, if_neg (by omega)] at h
    cases hfind : findVma vmas cursor with
    | none => simp [hfind] at h
    | some vma =>
      obtain ⟨hmem, hstart, hstop⟩ := lookup_mem hfind
      by_cases hheap : hasBit vma.flags NPK_MAP_HEAP = true
      · simp [hfind, hheap] at h
      · by_cases hinside : x < vma.stop
        · exact ⟨vma, hmem, hstart.trans hx, hinside, Bool.eq_false_iff.2 hheap⟩
        · have hrest : protectable vmas stop fuel (min vma.stop stop) = true := by
            simpa [hfind, hheap] using h
          exact ih hrest (min_le_of_left_le (not_lt.1 hinside))

theorem protectable_complete {fuel cursor : ℕ}
    (hfuel : (vmas.filter fun vma => decide (cursor < vma.stop)).length < fuel)
    (hcover : ∀ x, cursor ≤ x → x < stop →
      ∃ vma, findVma vmas x = some vma ∧ hasBit vma.flags NPK_MAP_HEAP = false) :
    protectable vmas stop fuel cursor = true := by
  induction fuel generalizing cursor with
  | zero => omega
  | succ fuel ih =>
    rw [protectable]
    by_cases hdone : stop ≤ cursor
    · rw [if_pos hdone]
    obtain ⟨vma, hfind, hheap⟩ := hcover cursor le_rfl (not_le.1 hdone)
    obtain ⟨hmem, hstart, hstop⟩ := lookup_mem hfind
    rw [if_neg hdone, hfind]
    simp only [hheap, Bool.false_eq_true, if_false]
    by_cases hlast : stop ≤ vma.stop
    · rw [min_eq_right hlast]
      cases fuel with
      | zero => simp [protectable]
      | succ fuel => rw [protectable, if_pos le_rfl]
    · rw [min_eq_left (not_le.1 hlast).le]
      refine ih ?_ fun x hx hlt => hcover x (hstop.le.trans hx) hlt
      -- the area just left is no longer counted
      have hfilter : (vmas.filter fun area => decide (vma.stop < area.stop)) =
          (vmas.filter fun area => decide (cursor < area.stop)).filter
            fun area => decide (vma.stop < area.stop) := by
        rw [List.filter_filter]
        refine List.filter_congr fun area _ => ?_
        by_cases harea : vma.stop < area.stop
        · simp [harea, hstop.trans harea]
        · simp [harea]
      have hcounted : vma ∈ vmas.filter fun area => decide (cursor < area.stop) :=
        List.mem_filter.2 ⟨hmem, by simpa using hstop⟩
      rw [hfilter]
      refine lt_of_lt_of_le (List.length_filter_lt_length_iff_exists.2
        ⟨vma, hcounted, by simp⟩) (by omega)

theorem protectable_iff (h : vmas.Pairwise Vma.Apart) :
    protectable vmas stop (vmas.length + 1) address = true ↔
      ∀ x, address ≤ x → x < stop →
        ∃ vma, findVma vmas x = some vma ∧ hasBit vma.flags NPK_MAP_HEAP = false := by
  constructor
  · intro hwalk x hx hlt
    obtain ⟨vma, hmem, hstart, hstop, hheap⟩ := protectable_sound hwalk hx hlt
    exact ⟨vma, lookup_eq_some_of_mem h hmem (holds_iff.2 ⟨hstart, hstop⟩), hheap⟩
  · refine protectable_complete ?_
    have := List.length_filter_le (fun vma => decide (address < vma.stop)) vmas
    omega

def SplitAt (point : ℕ) (vmas : List Vma) : Prop :=
  ∀ vma ∈ vmas, vma.start < point → vma.stop ≤ point

theorem splitVmaAt_cases {kmalloc retain : Bool} {vmas' : List Vma}
    (h : splitVmaAt kmalloc retain vmas point = some vmas') :
    (vmas' = vmas ∧ SplitAt point vmas) ∨
      ∃ before vma after, vmas = before ++ vma :: after ∧ vma.start < point ∧
        point < vma.stop ∧ vmas' = before ++ (vma.splitAt point ++ after) := by
  unfold splitVmaAt at h
  split at h
  next hfind =>
    left
    cases h
    refine ⟨rfl, fun vma hmem hstart => ?_⟩
    have hnot := List.find?_eq_none.1 hfind vma hmem
    simp only [straddles, Bool.and_eq_true, decide_eq_true_eq, not_and, not_lt] at hnot
    exact hnot hstart
  next vma hfind =>
    right
    split at h
    · simp at h
    · obtain ⟨hstraddles, before, after, hvmas, hreplace⟩ := replaceFirst_of_find hfind
      cases h
      simp only [straddles, Bool.and_eq_true, decide_eq_true_eq] at hstraddles
      exact ⟨before, vma, after, hvmas, hstraddles.1, hstraddles.2, hreplace _⟩

/-- What a successful split does, when no heap area is around the point. -/
structure Splits (layout : Layout) (point : ℕ) (vmas : List Vma) : Prop where
  changes : AreaChanges (fun _ => False) (fun _ _ _ => False) layout { layout with vmas := vmas }
  split : SplitAt point vmas
  keeps : ∀ other, SplitAt other layout.vmas → SplitAt other vmas
  same : ∀ {β : Type} (f : Vma → β),
    (∀ piece vma : Vma, piece.Piece vma → f piece = f vma) → ∀ x,
      (findVma vmas x).map f = (findVma layout.vmas x).map f

theorem splitVmaAt_splits {kmalloc retain : Bool} (hok : layout.Ok)
    (hpoint : point % NPK_PAGE_SIZE = 0)
    (hheap : ∀ vma ∈ layout.vmas, vma.start < point → point < vma.stop →
      hasBit vma.flags NPK_MAP_HEAP = false)
    (h : splitVmaAt kmalloc retain layout.vmas point = some vmas) :
    Splits layout point vmas := by
  rcases splitVmaAt_cases h with ⟨rfl, hsplit⟩ | ⟨before, vma, after, hvmas, hlow, hhigh, rfl⟩
  · exact ⟨.refl, hsplit, fun _ => id, fun _ _ _ => rfl⟩
  have hmem : vma ∈ layout.vmas := by simp [hvmas]
  have hothers : ∀ area ∈ before ++ (vma.splitAt point ++ after),
      area ∈ before ++ after ∨ area ∈ vma.splitAt point := by
    intro area harea
    simp only [List.mem_append] at harea ⊢
    tauto
  have hold : ∀ area ∈ before ++ after, area ∈ layout.vmas := by
    intro area harea
    rw [hvmas]
    simp only [List.mem_append, List.mem_cons] at harea ⊢
    tauto
  refine ⟨.single (.split before vma after point hvmas (hheap vma hmem hlow hhigh) hpoint hlow
    hhigh), ?_, ?_, ?_⟩
  · intro area harea hstart
    rcases hothers area harea with harea | harea
    · have hapart := apart_of_mem (hvmas ▸ hok.apart) harea
      rcases hapart with hapart | hapart <;> omega
    · obtain ⟨-, hside⟩ := Vma.mem_splitAt hlow hhigh harea
      omega
  · intro other hother area harea hstart
    rcases hothers area harea with harea | harea
    · exact hother area (hold area harea) hstart
    · obtain ⟨hpiece, hside⟩ := Vma.mem_splitAt hlow hhigh harea
      have hwhole := hother vma hmem
      have := hpiece.within.1
      have := hpiece.within.2
      omega
  · exact fun f hf => hok.findVma_split hvmas hlow hhigh f fun piece => hf piece vma

theorem vmmLookupRoot_user {tables : PageTree} {page : ℕ}
    (h : vmmLookupRoot tables page { user := true } ≠ 0) :
    canonical page = true ∧ ∃ entry, tables.leafAt (pagePath page) = some entry ∧
      entry.user = true := by
  revert h
  fun_cases vmmLookupRoot tables page { user := true } with
  | case4 hcanonical entry hentry hflags =>
    exact fun _ => ⟨by simpa using hcanonical, entry, hentry, by simpa using hflags⟩
  | _ => exact fun h => absurd rfl h

theorem protectPages_done (protection : Word) {count page : ℕ} (tables : PageTree)
    (haligned : page % NPK_PAGE_SIZE = 0) (hlimit : page + count * NPK_PAGE_SIZE ≤ NPK_USER_MAX) :
    (protectPages (pageFlagsFor protection) count page tables).1 = true := by
  induction count generalizing page tables with
  | zero => rfl
  | succ count ih =>
    have hnext : (page + NPK_PAGE_SIZE) % NPK_PAGE_SIZE = 0 := by
      rw [Nat.add_mod_right, haligned]
    have hlimit' : page + NPK_PAGE_SIZE + count * NPK_PAGE_SIZE ≤ NPK_USER_MAX := by
      rw [Nat.succ_mul] at hlimit
      omega
    have hpage : page < USER_LIMIT := by
      simp only [USER_LIMIT, NPK_USER_MAX, NPK_PAGE_SIZE] at hlimit' ⊢
      omega
    rw [protectPages]
    split
    next hpresent =>
      obtain ⟨hcanonical, entry, hentry, huser⟩ := vmmLookupRoot_user hpresent
      have hprotect : (vmmProtectPageRoot tables page (pageFlagsFor protection)).1 = true := by
        unfold vmmProtectPageRoot
        simp [haligned, hcanonical, hentry, huser, pageFlagsFor, not_le.2 hpage]
      split
      next heq => simp [heq] at hprotect
      · exact ih _ hnext hlimit'
    · exact ih _ hnext hlimit'

theorem pagesBetween_mul {address size : ℕ} (hsize : size % NPK_PAGE_SIZE = 0) :
    pagesBetween address (address + size) * NPK_PAGE_SIZE = size := by
  unfold pagesBetween
  simp only [NPK_PAGE_SIZE] at hsize ⊢
  omega

/-- A protection call fails before any change, fails after its first split, or makes both
splits and replaces the protections between them. -/
theorem vmProtect_cases (answers : Answers) {mem : Memory}
    (hok : mem.layout.Ok) (address length : ℕ) (protection : Word) :
    ((vmProtect answers mem address length protection).1 < 0 ∧
        (vmProtect answers mem address length protection).2 = mem) ∨
      ((vmProtect answers mem address length protection).1 < 0 ∧
        ∃ vmas, Splits mem.layout address vmas ∧
          (vmProtect answers mem address length protection).2 = mem.setVmas vmas) ∨
      ∃ size first second, pageAlignUp length = some size ∧
        writeAndExec protection = false ∧
        (∀ x, address ≤ x → x < address + size → ∃ vma,
          findVma mem.process.vmas x = some vma ∧ hasBit vma.flags NPK_MAP_HEAP = false) ∧
        Splits mem.layout address first ∧
        Splits { mem.layout with vmas := first } (address + size) second ∧
        vmProtect answers mem address length protection =
          (0, (mem.setVmas (second.map (Vma.protect address (address + size) protection))).setTables
            (protectPages (pageFlagsFor protection) (pagesBetween address (address + size)) address
              mem.process.tables).2) := by
  have heinval : VM_EINVAL < 0 := by decide
  have henomem : VM_ENOMEM < 0 := by decide
  unfold vmProtect
  split
  · exact Or.inl ⟨heinval, rfl⟩
  next hargs =>
  split
  · exact Or.inl ⟨heinval, rfl⟩
  next size hsize =>
  split
  · exact Or.inl ⟨heinval, rfl⟩
  next hrange =>
  dsimp only
  split
  · exact Or.inl ⟨heinval, rfl⟩
  next hwalk =>
  obtain ⟨hmod, hlength, -⟩ := pageAlignUp_eq_some hsize
  simp only [ne_eq, Bool.or_eq_true, decide_eq_true_eq, not_or, not_not, not_lt] at hargs hrange
  obtain ⟨⟨⟨haligned, hpositive⟩, -⟩, hexclusive⟩ := hargs
  have hwalk' : protectable mem.process.vmas (address + size)
      (mem.process.vmas.length + 1) address = true := by simpa using hwalk
  have hcover := (protectable_iff hok.apart).1 hwalk'
  split
  · exact Or.inl ⟨henomem, rfl⟩
  next first hfirst =>
  have hsplits : Splits mem.layout address first := by
    refine splitVmaAt_splits hok haligned ?_ hfirst
    intro vma hmem hlow hhigh
    obtain ⟨found, hfind, hheap⟩ := hcover address le_rfl (by omega)
    rw [hok.findVma_of_mem hmem hlow.le hhigh] at hfind
    rwa [Option.some.inj hfind]
  have hok' : Layout.Ok { mem.layout with vmas := first } :=
    hok.afterChanges hsplits.changes
  split
  · exact Or.inr (Or.inl ⟨henomem, first, hsplits, rfl⟩)
  next second hsecond =>
  right; right
  have hsplits' : Splits { mem.layout with vmas := first } (address + size) second := by
    refine splitVmaAt_splits hok' (by simp [Nat.add_mod, haligned, hmod]) ?_ hsecond
    intro vma hmem hlow hhigh
    obtain ⟨found, hfind, hheap⟩ := hcover (address + size - 1) (by omega) (by omega)
    have hsame := hsplits.same Vma.flags (fun _ _ h => h.flags) (address + size - 1)
    rw [hok'.findVma_of_mem hmem (by omega) (by omega), hfind] at hsame
    rwa [Option.some.inj hsame]
  have hdone := protectPages_done protection mem.process.tables haligned
    (show address + pagesBetween address (address + size) * NPK_PAGE_SIZE ≤ NPK_USER_MAX by
      rw [pagesBetween_mul hmod]; exact hrange.2)
  refine ⟨size, first, second, hsize, Bool.eq_false_iff.2 hexclusive,
    hcover, hsplits, hsplits', ?_⟩
  split
  next heq =>
    have hfalse := hdone.symm.trans (congrArg Prod.fst heq)
    simp at hfalse
  next heq =>
    obtain rfl := congrArg Prod.snd heq
    rfl

def rangeEnd (address length : ℕ) : ℕ := address + ((pageAlignUp length).getD 0)

def Gives (address length : ℕ) (protection : Word) (first stop : ℕ) (given : Word) : Prop :=
  first = address ∧ stop = rangeEnd address length ∧ given = protection

theorem Splits.areaChanges {layout : Layout} {point : ℕ} {vmas : List Vma} {fresh : Vma → Prop}
    {grants : ℕ → ℕ → Word → Prop} (h : Splits layout point vmas) :
    AreaChanges fresh grants layout { layout with vmas := vmas } :=
  h.changes.mono (fun _ => False.elim) (fun _ _ _ => False.elim)

theorem vmProtect_changes {fresh : Vma → Prop} (answers : Answers) {mem : Memory}
    (hok : mem.layout.Ok) (address length : ℕ) (protection : Word) :
    AreaChanges fresh (Gives address length protection) mem.layout
      (vmProtect answers mem address length protection).2.layout := by
  rcases vmProtect_cases answers hok address length protection with
    ⟨-, hsame⟩ | ⟨-, vmas, hsplits, hsame⟩ |
    ⟨size, first, second, hsize, hexclusive, hcover, hsplits, hsplits', heq⟩
  · rw [hsame]
  · rw [hsame]
    exact hsplits.areaChanges
  · rw [heq]
    have hend : address + size = rangeEnd address length := by simp [rangeEnd, hsize]
    have hsecond : Layout.Ok { mem.layout with vmas := second } :=
      (hok.afterChanges hsplits.changes).afterChanges hsplits'.changes
    refine (hsplits.areaChanges.trans hsplits'.areaChanges).tail
      (.reprotected address (address + size) protection ?_ hexclusive ⟨rfl, hend, rfl⟩)
    intro vma hvma hlow hhigh
    have hnonempty := (hsecond.each vma hvma).nonempty
    obtain ⟨found, hfind, hheap⟩ := hcover vma.start hlow (by omega)
    have hsame := (hsplits'.same Vma.flags (fun _ _ h => h.flags) vma.start).trans
      (hsplits.same Vma.flags (fun _ _ h => h.flags) vma.start)
    have hself : findVma second vma.start = some vma :=
      hsecond.findVma_of_mem hvma le_rfl hnonempty
    have hfound : findVma mem.layout.vmas vma.start = some found := hfind
    rw [hself, hfound] at hsame
    rwa [Option.some.inj hsame]

theorem sysMprotect_changes {fresh : Vma → Prop} (answers : Answers) {mem : Memory}
    (hok : mem.layout.Ok) (address length : ℕ) (protection : Word) :
    AreaChanges fresh (Gives address length protection) mem.layout
      (sysMprotect answers mem address length protection).2.layout := by
  unfold sysMprotect
  split
  · exact .refl
  · exact vmProtect_changes answers hok address length protection

end protections

/-! ## The protection at an address -/

def protectionAt (vmas : List Vma) (address : ℕ) : Option Word :=
  (findVma vmas address).map Vma.protection

/-- What a call that works on a range does to the protections of a process: on success
those of the whole range, all of it covered before, become `replaced`, and nothing else
changes; a failure changes none. -/
structure ChangesRange (before after : List Vma) (result : ℤ) (address length : ℕ)
    (replaced : Option Word) : Prop where
  inside : result = 0 → ∀ x, address ≤ x → x < rangeEnd address length →
    (protectionAt before x).isSome = true ∧ protectionAt after x = replaced
  outside : result = 0 → ∀ x, ¬(address ≤ x ∧ x < rangeEnd address length) →
    protectionAt after x = protectionAt before x
  failed : result ≠ 0 → result < 0 ∧ ∀ x, protectionAt after x = protectionAt before x

theorem vmUnmap_changesRange (answers : Answers) {mem : Memory} (hok : mem.layout.Ok)
    (address length : ℕ) :
    ChangesRange mem.process.vmas (vmUnmap answers mem address length).2.process.vmas
      (vmUnmap answers mem address length).1 address length none := by
  rcases vmUnmap_cases answers mem address length with ⟨hneg, hsame⟩ |
    ⟨size, before, vma, after, hsize, hpositive, haligned, hvmas, hlow, hhigh, hheap, heq⟩
  · rw [hsame]
    exact ⟨fun h => by omega, fun h => by omega, fun _ => ⟨hneg, fun _ => rfl⟩⟩
  have hend : rangeEnd address length = address + size := by simp [rangeEnd, hsize]
  have hafter : ∀ x, protectionAt (vmUnmap answers mem address length).2.process.vmas x =
      if address ≤ x ∧ x < address + size then none else protectionAt mem.process.vmas x := by
    intro x
    rw [heq]
    change protectionAt (unmapPages _ address _).layout.vmas x = _
    rw [unmapPages_layout]
    exact hok.findVma_cut hvmas hlow (by omega) hhigh _ (fun _ h => h.protection) x
  rw [heq] at hafter ⊢
  refine ⟨fun _ x hx hlt => ⟨?_, ?_⟩, fun _ x hx => ?_, fun h => absurd rfl h⟩
  · have hmem : vma ∈ mem.process.vmas := by simp [hvmas]
    have hfind : findVma mem.process.vmas x = some vma :=
      hok.findVma_of_mem hmem (hlow.trans hx) (by omega)
    rw [protectionAt, hfind]
    rfl
  · rw [hafter, if_pos (by omega)]
  · rw [hafter, if_neg (by omega)]

theorem protectionAt_protect {vmas : List Vma} {address stop : ℕ} (protection : Word)
    (hstart : SplitAt address vmas) (hstop : SplitAt stop vmas) (x : ℕ) :
    protectionAt (vmas.map (Vma.protect address stop protection)) x =
      if address ≤ x ∧ x < stop then (protectionAt vmas x).map fun _ => protection
      else protectionAt vmas x := by
  have hlookup : findVma (vmas.map (Vma.protect address stop protection)) x =
      (findVma vmas x).map (Vma.protect address stop protection) :=
    lookup_map (Vma.protect_start address stop protection)
      (Vma.protect_stop address stop protection)
  unfold protectionAt
  rw [hlookup]
  cases hfind : findVma vmas x with
  | none => simp
  | some vma =>
    obtain ⟨hmem, hlow, hhigh⟩ := lookup_mem hfind
    have hleft := hstart vma hmem
    have hright := hstop vma hmem
    simp only [Option.map_some]
    -- an area around an address of the range lies inside it
    by_cases hx : address ≤ x ∧ x < stop
    · have hinside : ¬(vma.start < address ∨ stop < vma.stop) := by omega
      simp [hx, Vma.protect, hinside]
    · have houtside : vma.start < address ∨ stop < vma.stop := by omega
      simp [hx, Vma.protect, houtside]

theorem vmProtect_changesRange (answers : Answers) {mem : Memory} (hok : mem.layout.Ok)
    (address length : ℕ) (protection : Word) :
    ChangesRange mem.process.vmas
      (vmProtect answers mem address length protection).2.process.vmas
      (vmProtect answers mem address length protection).1 address length (some protection) := by
  have hpiece : ∀ piece vma : Vma, piece.Piece vma → piece.protection = vma.protection :=
    fun _ _ h => h.protection
  rcases vmProtect_cases answers hok address length protection with
    ⟨hneg, hsame⟩ | ⟨hneg, vmas, hsplits, hsame⟩ |
    ⟨size, first, second, hsize, hexclusive, hcover, hsplits, hsplits', heq⟩
  · rw [hsame]
    exact ⟨fun h => by omega, fun h => by omega, fun _ => ⟨hneg, fun _ => rfl⟩⟩
  · rw [hsame]
    exact ⟨fun h => by omega, fun h => by omega,
      fun _ => ⟨hneg, hsplits.same Vma.protection hpiece⟩⟩
  · have hend : rangeEnd address length = address + size := by simp [rangeEnd, hsize]
    have hbefore : ∀ x, protectionAt second x = protectionAt mem.process.vmas x := fun x =>
      (hsplits'.same Vma.protection hpiece x).trans (hsplits.same Vma.protection hpiece x)
    have hafter := protectionAt_protect protection (hsplits'.keeps address hsplits.split)
      hsplits'.split
    rw [heq]
    refine ⟨fun _ x hx hlt => ?_, fun _ x hx => ?_, fun h => absurd rfl h⟩
    · obtain ⟨vma, hfind, -⟩ := hcover x hx (by omega)
      have hfound : protectionAt mem.process.vmas x = some vma.protection := by
        rw [protectionAt, hfind]
        rfl
      refine ⟨by rw [hfound]; rfl, ?_⟩
      exact (hafter x).trans (by rw [if_pos (by omega), hbefore, hfound]; rfl)
    · exact (hafter x).trans (by rw [if_neg (by omega), hbefore])

theorem sysMprotect_changesRange (answers : Answers) {mem : Memory} (hok : mem.layout.Ok)
    (address length : ℕ) (protection : Word) :
    ChangesRange mem.process.vmas
      (sysMprotect answers mem address length protection).2.process.vmas
      (sysMprotect answers mem address length protection).1 address length
      (some protection) := by
  unfold sysMprotect
  split
  · exact ⟨fun h => by simp at h, fun h => by simp at h,
      fun _ => ⟨(by decide : (-14 : ℤ) < 0), fun _ => rfl⟩⟩
  · exact vmProtect_changesRange answers hok address length protection

end NPKernel.Vm
