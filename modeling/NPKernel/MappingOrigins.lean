import NPKernel.AreaLists

/-!
# Where the areas of a process come from

Next to the machine a record is kept of the latest mapping made at each address of
each process that an area still covers.  Cuts, splits, protections and forks leave
areas that are fragments of those the mapping calls made.
-/

namespace NPKernel.Vm

open IntervalLists Relation GuardedRuns

/-! ## Fragments of an area -/

/-- What is left of an area after cuts, splits and granted protections. -/
inductive Fragment (grants : ℕ → ℕ → Word → Prop) (vma : Vma) : Vma → Prop
  | whole : Fragment grants vma vma
  | cut {part piece : Vma} (h : Fragment grants vma part) (address stop : ℕ)
      (hlow : part.start ≤ address) (hlt : address < stop) (hhigh : stop ≤ part.stop)
      (hpiece : piece ∈ part.cut address stop) : Fragment grants vma piece
  | split {part piece : Vma} (h : Fragment grants vma part) (point : ℕ)
      (hlow : part.start < point) (hhigh : point < part.stop)
      (hpiece : piece ∈ part.splitAt point) : Fragment grants vma piece
  | protect {part : Vma} (h : Fragment grants vma part) (address stop : ℕ) (protection : Word)
      (hgrants : grants address stop protection) (hlow : address ≤ part.start)
      (hhigh : part.stop ≤ stop) : Fragment grants vma { part with protection := protection }

section fragments

variable {grants : ℕ → ℕ → Word → Prop} {vma part piece : Vma} {layout next : Layout}

theorem Fragment.trans (h : Fragment grants vma part) (h' : Fragment grants part piece) :
    Fragment grants vma piece := by
  induction h' with
  | whole => exact h
  | cut _ address stop hlow hlt hhigh hpiece ih =>
    exact ih.cut address stop hlow hlt hhigh hpiece
  | split _ point hlow hhigh hpiece ih => exact ih.split point hlow hhigh hpiece
  | protect _ address stop protection hgrants hlow hhigh ih =>
    exact ih.protect address stop protection hgrants hlow hhigh

theorem Fragment.within (h : Fragment grants vma piece) : Within Vma.start Vma.stop piece vma := by
  induction h with
  | whole => exact ⟨le_rfl, le_rfl⟩
  | cut _ address stop hlow hlt hhigh hpiece ih =>
    obtain ⟨hpart, -⟩ := Vma.mem_cut hlow hlt hhigh hpiece
    exact ⟨ih.1.trans hpart.within.1, hpart.within.2.trans ih.2⟩
  | split _ point hlow hhigh hpiece ih =>
    obtain ⟨hpart, -⟩ := Vma.mem_splitAt hlow hhigh hpiece
    exact ⟨ih.1.trans hpart.within.1, hpart.within.2.trans ih.2⟩
  | protect _ address stop protection hgrants hlow hhigh ih => exact ih

/-- What passes to the pieces of an area passes to its fragments around an address. -/
theorem Fragment.inherits {P : Vma → Prop} {x : ℕ}
    (hcut : ∀ part piece address stop, part.start ≤ address → address < stop →
      stop ≤ part.stop → piece ∈ part.cut address stop → P part → P piece)
    (hsplit : ∀ part piece point, part.start < point → point < part.stop →
      piece ∈ part.splitAt point → P part → P piece)
    (hprotect : ∀ part address stop protection, grants address stop protection →
      address ≤ x → x < stop → P part → P { part with protection := protection })
    (h : Fragment grants vma piece) (hlow : piece.start ≤ x) (hhigh : x < piece.stop)
    (hvma : P vma) : P piece := by
  induction h with
  | whole => exact hvma
  | cut _ address stop hstart hlt hstop hpiece ih =>
    obtain ⟨hpart, -⟩ := Vma.mem_cut hstart hlt hstop hpiece
    exact hcut _ _ address stop hstart hlt hstop hpiece
      (ih (hpart.within.1.trans hlow) (hhigh.trans_le hpart.within.2))
  | split _ point hstart hstop hpiece ih =>
    obtain ⟨hpart, -⟩ := Vma.mem_splitAt hstart hstop hpiece
    exact hsplit _ _ point hstart hstop hpiece
      (ih (hpart.within.1.trans hlow) (hhigh.trans_le hpart.within.2))
  | protect _ address stop protection hgrants hstart hstop ih =>
    exact hprotect _ address stop protection hgrants (hstart.trans hlow)
      (hhigh.trans_le hstop) (ih hlow hhigh)

theorem AreaChange.fragment (h : AreaChange (fun _ => False) grants layout next)
    (hpiece : piece ∈ next.vmas) : ∃ vma ∈ layout.vmas, Fragment grants vma piece := by
  cases h with
  | cursor cursor haligned => exact ⟨piece, hpiece, .whole⟩
  | inserted vma hok hfree hfresh => exact hfresh.elim
  | cut before vma after address stop hvmas hheap haddress hstop hlow hlt hhigh =>
    rw [hvmas]
    rcases List.mem_append.1 hpiece with hbefore | hrest
    · exact ⟨piece, List.mem_append_left _ hbefore, .whole⟩
    · rcases List.mem_append.1 hrest with hcut | hafter
      · exact ⟨vma, List.mem_append_right _ List.mem_cons_self,
          Fragment.whole.cut address stop hlow hlt hhigh hcut⟩
      · exact ⟨piece, List.mem_append_right _ (List.mem_cons_of_mem _ hafter), .whole⟩
  | split before vma after point hvmas hheap hpoint hlow hhigh =>
    rw [hvmas]
    rcases List.mem_append.1 hpiece with hbefore | hrest
    · exact ⟨piece, List.mem_append_left _ hbefore, .whole⟩
    · rcases List.mem_append.1 hrest with hsplit | hafter
      · exact ⟨vma, List.mem_append_right _ List.mem_cons_self,
          Fragment.whole.split point hlow hhigh hsplit⟩
      · exact ⟨piece, List.mem_append_right _ (List.mem_cons_of_mem _ hafter), .whole⟩
  | reprotected address stop protection hheap hexclusive hgrants =>
    obtain ⟨vma, hvma, rfl⟩ := List.mem_map.1 hpiece
    refine ⟨vma, hvma, ?_⟩
    unfold Vma.protect
    split
    · exact .whole
    next hinside =>
      simp only [Bool.or_eq_true, decide_eq_true_eq, not_or, not_lt] at hinside
      exact Fragment.whole.protect address stop protection hgrants hinside.1 hinside.2
  | brk heap newEnd hheap hlow hhigh => exact ⟨piece, hpiece, .whole⟩

theorem AreaChanges.fragment (h : AreaChanges (fun _ => False) grants layout next)
    (hpiece : piece ∈ next.vmas) : ∃ vma ∈ layout.vmas, Fragment grants vma piece := by
  induction h generalizing piece with
  | refl => exact ⟨piece, hpiece, .whole⟩
  | tail _ hchange ih =>
    obtain ⟨part, hpart, hfragment⟩ := hchange.fragment hpiece
    obtain ⟨vma, hvma, hfragment'⟩ := ih hpart
    exact ⟨vma, hvma, hfragment'.trans hfragment⟩

end fragments

/-! ## The record of mappings -/

inductive Backing where
  | anonymous
  | file (handle size : ℕ)
  | object (handle : ℕ)
  | display
  deriving DecidableEq

structure Mapping where
  backing : Backing
  base : ℕ
  stop : ℕ
  offset : ℕ
  flags : Word

def MmapArguments.mapping (answers : Answers) (objects : Objects) (arguments : MmapArguments)
    (base : ℕ) : Mapping where
  backing :=
    if hasBit arguments.flags NPK_MAP_ANONYMOUS then .anonymous
    else
      match arguments.handle with
      | none => .anonymous
      | some handle =>
        if (objects handle).isSome then .object handle
        else .file handle answers.fileSize.toNat
  base := base
  stop := rangeEnd base arguments.length
  offset := arguments.offset
  flags := arguments.flags

def Event.maps (platform : Platform) (m : Machine) : Event → Option (Fin 128 × Mapping)
  | .mmap slot answers arguments =>
    match m.slots slot with
    | .live process =>
      match (sysMmap answers m.sharedObjects arguments
          { frames := m.frames, process := process }).1 with
      | .ok base => some (slot, arguments.mapping answers m.sharedObjects base)
      | .error _ => none
    | _ => none
  | .displayMap slot answers requested flags =>
    match platform.framebuffer, (sysDisplayMap platform m slot answers requested flags).1 with
    | some fb, .ok base =>
      some (slot, { backing := .display, base := base, stop := rangeEnd base fb.mappingSize
                    offset := 0, flags := flags })
    | _, _ => none
  | _ => none

abbrev Origins := Fin 128 → ℕ → Option Mapping

def Origins.record (origins : Origins) (slot : Fin 128) (mapping : Mapping) : Origins :=
  Function.update origins slot fun x =>
    if mapping.base ≤ x ∧ x < mapping.stop then some mapping else origins slot x

def Event.origins (platform : Platform) (origins : Origins) (m : Machine) : Event → Origins
  | .create _ _ _ => fun slot => if m.deadSlot = some slot then fun _ => none else origins slot
  | .exec slot answers arguments =>
    match m.slots slot with
    | .live process =>
      if (stageExecImage answers m.sharedObjects arguments process.pid m.frames).1.isSome then
        Function.update origins slot fun _ => none
      else origins
    | _ => origins
  | .fork slot _ => fun child => if m.freeSlot = some child then origins slot else origins child
  | event =>
    match event.maps platform m with
    | some (slot, mapping) => origins.record slot mapping
    | none => origins

def Machine.covers (m : Machine) (slot : Fin 128) (x : ℕ) : Bool :=
  match m.slots slot with
  | .live process => (findVma process.vmas x).isSome
  | _ => false

def noteOrigins (platform : Platform) (origins : Origins) (m : Machine) (event : Event)
    (next : Machine) : Origins := fun slot x =>
  if next.covers slot x then event.origins platform origins m slot x else none

def originStep (platform : Platform) : Machine × Origins → Event → Option (Machine × Origins) :=
  track (step platform) (noteOrigins platform)

def originBoot (platform : Platform) : Machine × Origins := (boot platform, fun _ _ => none)

structure Originates (R : ℕ → Mapping → Vma → Prop) (state : Machine × Origins) : Prop where
  ok : AllLive state.1.slots fun process => process.layout.Ok
  covered : ∀ slot x mapping, state.2 slot x = some mapping → state.1.covers slot x = true
  related : ∀ slot process, state.1.slots slot = .live process → ∀ vma ∈ process.vmas,
    ∀ x, vma.start ≤ x → x < vma.stop → ∀ mapping, state.2 slot x = some mapping → R x mapping vma

def Event.Built (platform : Platform) (m : Machine) (event : Event) (mapping : Mapping)
    (vma : Vma) : Prop :=
  match event with
  | .mmap _ answers arguments =>
    arguments.Made answers m.sharedObjects vma ∧
      mapping = arguments.mapping answers m.sharedObjects vma.start
  | .displayMap _ _ _ flags =>
    ∃ fb, platform.framebuffer = some fb ∧
      MadeForDisplay fb.mappingSize (NPK_PROT_READ ||| NPK_PROT_WRITE) flags vma ∧
      mapping = { backing := .display, base := vma.start
                  stop := rangeEnd vma.start fb.mappingSize, offset := 0, flags := flags }
  | _ => False

theorem rangeEnd_of_size {start stop length : ℕ} (hle : start < stop)
    (h : pageAlignUp length = some (stop - start)) : rangeEnd start length = stop := by
  rw [rangeEnd, h]
  change start + (stop - start) = stop
  omega

theorem Event.Built.range {platform : Platform} {m : Machine} {event : Event}
    {mapping : Mapping} {vma : Vma} (hok : vma.Ok) (h : event.Built platform m mapping vma) :
    mapping.base = vma.start ∧ mapping.stop = vma.stop := by
  cases event with
  | mmap slot answers arguments =>
    obtain ⟨hmade, rfl⟩ := h
    refine ⟨rfl, rangeEnd_of_size hok.nonempty ?_⟩
    obtain ⟨requested, length, protection, flags, fd, handle, offset⟩ := arguments
    rcases hmade with ⟨-, hmade⟩ | ⟨-, backing, -, ⟨-, hmade⟩ | ⟨-, hmade⟩⟩
    · exact hmade.size
    · exact hmade.size
    · exact hmade.size
  | displayMap slot answers requested flags =>
    obtain ⟨fb, -, hmade, rfl⟩ := h
    exact ⟨rfl, rangeEnd_of_size hok.nonempty hmade.size⟩
  | _ => exact h.elim

/-! ## Steps of the record -/

/-- The areas of a process after a call: fragments of those before, or those before with a
new one in front. -/
structure NewArea (platform : Platform) (m : Machine) (event : Event) (slot : Fin 128)
    (vmas next : List Vma) (vma : Vma) : Prop where
  vmas_eq : next = vma :: vmas
  ok : vma.Ok
  apart : ∀ other ∈ vmas, vma.Apart other
  maps : event.maps platform m = none ∨ ∃ mapping,
    event.maps platform m = some (slot, mapping) ∧ event.Built platform m mapping vma

def OldAreas (platform : Platform) (m : Machine) (event : Event) (vmas next : List Vma) : Prop :=
  event.maps platform m = none ∧ ∀ piece ∈ next, ∃ vma ∈ vmas, Fragment event.Grants vma piece

section calls

variable {platform : Platform} {m : Machine} {event : Event} {slot : Fin 128}
  {process : UserProcess}

theorem MapOutcome.areas {makes : Vma → Prop} {vmas next : List Vma} {result : Except ℤ ℕ}
    (h : MapOutcome makes vmas result next)
    (herror : ∀ code, result = .error code → event.maps platform m = none)
    (hmade : ∀ vma, result = .ok vma.start → makes vma → ∃ mapping,
      event.maps platform m = some (slot, mapping) ∧ event.Built platform m mapping vma) :
    OldAreas platform m event vmas next ∨ ∃ vma, NewArea platform m event slot vmas next vma := by
  cases h with
  | failed code => exact Or.inl ⟨herror code rfl, fun piece hpiece => ⟨piece, hpiece, .whole⟩⟩
  | left code vma hok hfree hheap =>
    exact Or.inr ⟨vma, rfl, hok, hfree, Or.inl (herror code rfl)⟩
  | made vma hok hfree hmakes => exact Or.inr ⟨vma, rfl, hok, hfree, Or.inr (hmade vma rfl hmakes)⟩

theorem mmap_areas (answers : Answers) (arguments : MmapArguments)
    (hlive : m.slots slot = .live process) (hok : process.layout.Ok) :
    OldAreas platform m (.mmap slot answers arguments) process.vmas
        (sysMmap answers m.sharedObjects arguments
          { frames := m.frames, process := process }).2.process.vmas ∨
      ∃ vma, NewArea platform m (.mmap slot answers arguments) slot process.vmas
        (sysMmap answers m.sharedObjects arguments
          { frames := m.frames, process := process }).2.process.vmas vma := by
  have hcursor : (Memory.layout { frames := m.frames, process := process }).mmapCursor %
      NPK_PAGE_SIZE = 0 := hok.cursor
  have houtcome : MapOutcome (arguments.Made answers m.sharedObjects) process.vmas _ _ :=
    (sysMmap_result hcursor arguments).outcome
  refine houtcome.areas ?_ ?_
  · intro code hcode
    simp only [Event.maps, hlive, hcode]
  · intro vma hstart hmade
    refine ⟨arguments.mapping answers m.sharedObjects vma.start, ?_, hmade, rfl⟩
    simp only [Event.maps, hlive, hstart]

variable {f : Memory → Memory}

theorem displayMap_areas (answers : Answers) (requested : ℕ) (flags : Word)
    (hcall : (Event.displayMap slot answers requested flags).call platform m = some (slot, f))
    (hlive : m.slots slot = .live process) (hok : process.layout.Ok) :
    OldAreas platform m (.displayMap slot answers requested flags) process.vmas
        (f { frames := m.frames, process := process }).process.vmas ∨
      ∃ vma, NewArea platform m (.displayMap slot answers requested flags) slot process.vmas
        (f { frames := m.frames, process := process }).process.vmas vma := by
  have hcursor : (Memory.layout { frames := m.frames, process := process }).mmapCursor %
      NPK_PAGE_SIZE = 0 := hok.cursor
  obtain ⟨fb, hfb, hpair⟩ := Option.map_eq_some_iff.1 hcall
  cases hpair
  dsimp only
  rcases sysDisplayMap_cases answers requested flags hlive hfb with
    ⟨hrefused, code, heq⟩ | ⟨hallowed, heq⟩
  · rw [if_pos hrefused]
    refine Or.inl ⟨?_, fun piece hpiece => ⟨piece, hpiece, .whole⟩⟩
    simp only [Event.maps, hfb, heq]
  rw [if_neg (by simp [hallowed])]
  have houtcome : MapOutcome (MadeForDisplay fb.mappingSize
      (NPK_PROT_READ ||| NPK_PROT_WRITE) flags) process.vmas
      (vmMapDevice answers { frames := m.frames, process := process } requested fb.physicalBase
        fb.mappingSize (NPK_PROT_READ ||| NPK_PROT_WRITE) flags).1 _ :=
    (vmMapDevice_result hcursor requested fb.physicalBase fb.mappingSize _ flags).outcome
  refine houtcome.areas ?_ ?_
  · intro code hcode
    simp only [Event.maps, hfb, heq, hcode]
  · intro vma hstart hmade
    refine ⟨_, ?_, fb, hfb, hmade, rfl⟩
    simp only [Event.maps, hfb, heq, hstart]

theorem Event.call_areas (hcall : event.call platform m = some (slot, f))
    (hlive : m.slots slot = .live process) (hok : process.layout.Ok) :
    OldAreas platform m event process.vmas
        (f { frames := m.frames, process := process }).process.vmas ∨
      ∃ vma, NewArea platform m event slot process.vmas
        (f { frames := m.frames, process := process }).process.vmas vma := by
  have hmem : (Memory.layout { frames := m.frames, process := process }).Ok := hok
  have hchanges := Event.call_changes hcall hmem
  cases event with
  | mmap slot answers arguments =>
    obtain ⟨rfl, rfl⟩ := Prod.mk.inj (Option.some.inj hcall)
    exact mmap_areas answers arguments hlive hok
  | displayMap slot answers requested flags =>
    obtain ⟨fb, hfb, hpair⟩ := Option.map_eq_some_iff.1 hcall
    cases hpair
    exact displayMap_areas answers requested flags hcall hlive hok
  | _ => exact Or.inl ⟨rfl, fun piece hpiece => AreaChanges.fragment hchanges hpiece⟩

end calls

/-- A relation between mappings and areas that new mappings have and that passes to the
pieces of an area. -/
structure Passes (platform : Platform) (R : ℕ → Mapping → Vma → Prop) : Prop where
  built : ∀ m (event : Event) mapping vma x, event.Built platform m mapping vma → vma.Ok →
    R x mapping vma
  cut : ∀ x mapping part piece address stop, part.start ≤ address → address < stop →
    stop ≤ part.stop → piece ∈ part.cut address stop → R x mapping part → R x mapping piece
  split : ∀ x mapping part piece point, part.start < point → point < part.stop →
    piece ∈ part.splitAt point → R x mapping part → R x mapping piece

def Event.Keeps (platform : Platform) (R : ℕ → Mapping → Vma → Prop)
    (state : Machine × Origins) (event : Event) : Prop :=
  ∀ slot f, event.call platform state.1 = some (slot, f) → ∀ first stop protection,
    event.Grants first stop protection → ∀ x, first ≤ x → x < stop →
      ∀ mapping, state.2 slot x = some mapping → ∀ part, R x mapping part →
        R x mapping { part with protection := protection }

section steps

variable {platform : Platform} {R : ℕ → Mapping → Vma → Prop} {state : Machine × Origins}
  {event : Event} {slot : Fin 128} {process : UserProcess}

variable {m : Machine} {x : ℕ} {f : Memory → Memory} {mapping : Mapping}

theorem Machine.covers_iff (hlive : m.slots slot = .live process) :
    m.covers slot x = true ↔ ∃ vma ∈ process.vmas, vma.start ≤ x ∧ x < vma.stop := by
  rw [Machine.covers, hlive]
  simp only [findVma, List.find?_isSome, Vma.contains_iff]

theorem Event.origins_of_call (origins : Origins) (hcall : event.call platform m = some (slot, f)) :
    event.origins platform origins m =
      match event.maps platform m with
      | some (slot, mapping) => origins.record slot mapping
      | none => origins := by
  cases event with
  | create | exec | fork => simp [Event.call] at hcall
  | _ => rfl

theorem Event.call_of_maps (h : event.maps platform m = some (slot, mapping)) :
    ∃ f, event.call platform m = some (slot, f) := by
  cases event with
  | mmap other answers arguments =>
    simp only [Event.maps] at h
    split at h
    · split at h
      · obtain ⟨rfl, -⟩ := Prod.mk.inj (Option.some.inj h)
        exact ⟨_, rfl⟩
      · simp at h
    · simp at h
  | displayMap other answers requested flags =>
    simp only [Event.maps] at h
    split at h
    next fb base hfb hbase =>
      obtain ⟨rfl, -⟩ := Prod.mk.inj (Option.some.inj h)
      exact ⟨_, by rw [Event.call, hfb]; rfl⟩
    · simp at h
  | _ => simp [Event.maps] at h

theorem Machine.freeSlot_free (h : m.freeSlot = some slot) : m.slots slot = .free := by
  have hfree := List.find?_some h
  split at hfree
  next hslot => exact hslot
  · simp at hfree

theorem Event.origins_other {origins : Origins}
    (hother : ∀ f, event.call platform m ≠ some (slot, f)) (hlive : m.slots slot = .live process)
    (h : event.origins platform origins m slot x = some mapping) :
    origins slot x = some mapping := by
  have hmaps : (match event.maps platform m with
      | some (slot, mapping) => origins.record slot mapping
      | none => origins) slot x = some mapping → origins slot x = some mapping := by
    intro hrecord
    cases hmade : event.maps platform m with
    | none =>
      rw [hmade] at hrecord
      exact hrecord
    | some pair =>
      obtain ⟨f, hf⟩ := Event.call_of_maps hmade
      have hne : slot ≠ pair.1 := by
        rintro rfl
        exact hother f hf
      rw [hmade] at hrecord
      change Function.update origins pair.1 _ slot x = some mapping at hrecord
      rwa [Function.update_of_ne hne] at hrecord
  cases event with
  | create answers exec created =>
    change (if m.deadSlot = some slot then fun _ => none else origins slot) x = _ at h
    split at h
    · simp at h
    · exact h
  | exec other answers exec =>
    by_cases hslot : slot = other
    · subst hslot
      simp only [Event.origins, hlive] at h
      split at h
      · rw [Function.update_self] at h
        simp at h
      · exact h
    · have hsame : Event.origins platform origins m (.exec other answers exec) slot =
          origins slot := by
        cases hstate : m.slots other with
        | live process =>
          simp only [Event.origins, hstate]
          split
          · rw [Function.update_of_ne hslot]
          · rfl
        | free | taken => simp only [Event.origins, hstate]
      rwa [hsame] at h
  | fork other answers =>
    change (if m.freeSlot = some slot then origins other else origins slot) x = _ at h
    split at h
    next hfree =>
      rw [Machine.freeSlot_free hfree] at hlive
      cases hlive
    · exact h
  | _ => exact hmaps h

theorem Originates.ofCall (hpass : Passes platform R) (h : Originates R state)
    (hkeeps : event.Keeps platform R state) (hlive : state.1.slots slot = .live process)
    (hcall : event.call platform state.1 = some (slot, f)) {piece : Vma}
    (hpiece : piece ∈ (f { frames := state.1.frames, process := process }).process.vmas)
    (hlow : piece.start ≤ x) (hhigh : x < piece.stop)
    (horigin : event.origins platform state.2 state.1 slot x = some mapping) :
    R x mapping piece := by
  rw [Event.origins_of_call state.2 hcall] at horigin
  rcases Event.call_areas hcall hlive (h.ok slot process hlive) with
    ⟨hmaps, hold⟩ | ⟨vma, hvmas, hok, hapart, hmaps⟩
  · rw [hmaps] at horigin
    obtain ⟨vma, hvma, hfragment⟩ := hold piece hpiece
    have hwithin := hfragment.within
    have hrelated : R x mapping vma := h.related slot process hlive vma hvma x
      (hwithin.1.trans hlow) (hhigh.trans_le hwithin.2) mapping horigin
    exact hfragment.inherits
      (fun part piece address stop => hpass.cut x mapping part piece address stop)
      (fun part piece point => hpass.split x mapping part piece point)
      (fun part first stop protection hgrants hfirst hstop =>
        hkeeps slot f hcall first stop protection hgrants x hfirst hstop mapping horigin part)
      hlow hhigh hrelated
  · have hcovered : state.2 slot x = some mapping → piece ∈ process.vmas := by
      intro hrecorded
      obtain ⟨other, hother, hotherLow, hotherHigh⟩ :=
        (Machine.covers_iff hlive).1 (h.covered slot x mapping hrecorded)
      rw [hvmas] at hpiece
      rcases List.mem_cons.1 hpiece with rfl | hold
      · have hdisjoint := hapart other hother
        simp only [Vma.Apart, IntervalLists.Apart] at hdisjoint
        omega
      · exact hold
    rcases hmaps with hmaps | ⟨made, hmaps, hbuilt⟩
    · rw [hmaps] at horigin
      exact h.related slot process hlive piece (hcovered horigin) x hlow hhigh mapping horigin
    rw [hmaps] at horigin
    obtain ⟨hbase, hstop⟩ := hbuilt.range hok
    change Function.update state.2 slot _ slot x = some mapping at horigin
    rw [Function.update_self, hbase, hstop] at horigin
    split at horigin
    next hinside =>
      obtain rfl := Option.some.inj horigin
      rw [hvmas] at hpiece
      rcases List.mem_cons.1 hpiece with rfl | hold
      · exact hpass.built state.1 event made piece x hbuilt hok
      · have hdisjoint := hapart piece hold
        simp only [Vma.Apart, IntervalLists.Apart] at hdisjoint
        omega
    · exact h.related slot process hlive piece (hcovered horigin) x hlow hhigh mapping horigin

theorem Originates.step (hpass : Passes platform R) (h : Originates R state)
    (hkeeps : event.Keeps platform R state) {next : Machine × Origins}
    (hstep : originStep platform state event = some next) : Originates R next := by
  obtain ⟨hmachine, hnote⟩ := track_eq_some hstep
  obtain ⟨next, origins⟩ := next
  obtain rfl := Option.some.inj hmachine
  dsimp only at hnote
  have hrecord : ∀ {slot x mapping}, origins slot x = some mapping →
      (perform platform state.1 event).covers slot x = true ∧
        event.origins platform state.2 state.1 slot x = some mapping := by
    intro slot x mapping hrecorded
    rw [hnote, noteOrigins] at hrecorded
    split at hrecorded
    next hcovers => exact ⟨hcovers, hrecorded⟩
    · simp at hrecorded
  refine ⟨perform_ok h.ok, fun slot x mapping hrecorded => (hrecord hrecorded).1, ?_⟩
  intro slot process hafter vma hvma x hlow hhigh mapping hrecorded
  have horigin := (hrecord hrecorded).2
  cases perform_slot hafter with
  | kept _ _ _ hlive hother =>
    exact h.related slot process hlive vma hvma x hlow hhigh mapping
      (Event.origins_other hother hlive horigin)
  | created answers exec _ _ frames hslot hstage =>
    change (if state.1.deadSlot = some slot then fun _ => none else state.2 slot) x = _ at horigin
    rw [if_pos hslot] at horigin
    simp at horigin
  | executed answers exec _ old _ frames hlive hstage =>
    simp only [Event.origins, hlive, hstage, Option.isSome_some, if_true,
      Function.update_self] at horigin
    simp at horigin
  | parent answers _ before hlive =>
    have hsame : state.2 slot x = some mapping :=
      Event.origins_other (fun f hf => by simp [Event.call] at hf) hlive horigin
    exact h.related slot before hlive vma hvma x hlow hhigh mapping hsame
  | child answers parent _ before tables hlive hfree hclone =>
    change (if state.1.freeSlot = some slot then state.2 parent else state.2 slot) x = _ at horigin
    rw [if_pos hfree] at horigin
    exact h.related parent before hlive vma (List.mem_of_mem_filter hvma) x hlow hhigh mapping
      horigin
  | called _ _ before f hlive hcall =>
    exact h.ofCall hpass hkeeps hlive hcall hvma hlow hhigh horigin

theorem Originates.boot (platform : Platform) (R : ℕ → Mapping → Vma → Prop) :
    Originates R (originBoot platform) where
  ok := boot_live platform _
  covered := fun slot x mapping h => by cases h
  related := fun slot process hlive vma hvma x hlow hhigh mapping h => by cases h

theorem Originates.run (hpass : Passes platform R) {events : List Event} {last : Machine × Origins}
    (hguard : Guarded (originStep platform) (fun state event => event.Keeps platform R state)
      (originBoot platform) events)
    (hrun : GuardedRuns.run (originStep platform) (originBoot platform) events = some last) :
    Originates R last :=
  invariant_run (fun _ _ _ h hkeeps hstep => h.step hpass hkeeps hstep)
    (Originates.boot platform R) hguard hrun

end steps

theorem sample_origins {α : Type} {events : List Event} {slot : Fin 128}
    {observe : Machine × Origins → UserProcess → α} {value : α}
    (h : ((run (originStep samplePlatform) (sampleBoot, fun _ _ => none) events).bind
      fun state => (state.1.processAt slot).map (observe state)) = some value) :
    ∃ m origins process,
      run (originStep samplePlatform) (originBoot samplePlatform) events = some (m, origins) ∧
      m.slots slot = .live process ∧ observe (m, origins) process = value := by
  obtain ⟨⟨m, origins⟩, hrun, hm⟩ := Option.bind_eq_some_iff.1 h
  obtain ⟨process, hprocess, hvalue⟩ := Option.map_eq_some_iff.1 hm
  refine ⟨m, origins, process, ?_, m.slots_of_processAt hprocess, hvalue⟩
  rw [originBoot, boot_sample, hrun]

end NPKernel.Vm
