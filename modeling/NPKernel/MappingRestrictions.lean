import NPKernel.MappingOrigins

/-!
# Restrictions of mappings

A mapping call refuses an executable mapping of the display and a writable shared
mapping of a file.  A later protection call does not look at what it changes, so
these restrictions last only as long as no such call asks for more.
-/

namespace NPKernel.Vm

open GuardedRuns

def Mapping.Permits (mapping : Mapping) (protection : Word) : Prop :=
  (mapping.backing = .display → hasBit protection NPK_PROT_EXEC = false) ∧
    ∀ handle size, mapping.backing = .file handle size →
      hasBit mapping.flags NPK_MAP_SHARED = true → hasBit protection NPK_PROT_WRITE = false

theorem Event.Built.permits {platform : Platform} {m : Machine} {event : Event}
    {mapping : Mapping} {vma : Vma} (h : event.Built platform m mapping vma) :
    mapping.Permits vma.protection := by
  cases event with
  | mmap slot answers arguments =>
    obtain ⟨hmade, rfl⟩ := h
    obtain ⟨requested, length, protection, flags, fd, handle, offset⟩ := arguments
    rcases hmade with ⟨hflag, hmade⟩ | ⟨hflag, backing, rfl, ⟨hobject, hmade⟩ | ⟨hobject, hmade⟩⟩
    · simp [Mapping.Permits, MmapArguments.mapping, hflag]
    · simp [Mapping.Permits, MmapArguments.mapping, hflag, hobject]
    · have hrestricted := hmade.restricted
      simp only [Bool.and_eq_false_iff] at hrestricted
      simp [Mapping.Permits, MmapArguments.mapping, hflag, hobject, hmade.protection_eq]
      intro hshared
      simpa [hshared] using hrestricted
  | displayMap slot answers requested flags =>
    obtain ⟨fb, -, hmade, rfl⟩ := h
    refine ⟨fun _ => ?_, fun handle size hbacking => by cases hbacking⟩
    rw [hmade.protection_eq]
    exact hmade.restricted
  | _ => exact h.elim

def Restricts (_ : ℕ) (mapping : Mapping) (vma : Vma) : Prop := mapping.Permits vma.protection

theorem restricts_passes (platform : Platform) : Passes platform Restricts where
  built := fun _ _ _ _ _ hbuilt _ => hbuilt.permits
  cut := by
    intro x mapping part piece address stop hlow hlt hhigh hpiece hpart
    obtain ⟨hsame, -⟩ := Vma.mem_cut hlow hlt hhigh hpiece
    rw [Restricts, hsame.protection]
    exact hpart
  split := by
    intro x mapping part piece point hlow hhigh hpiece hpart
    obtain ⟨hsame, -⟩ := Vma.mem_splitAt hlow hhigh hpiece
    rw [Restricts, hsame.protection]
    exact hpart

/-- No protection call asks for execution on a range that touches a mapping of the display,
or for writing on one that touches a shared mapping of a file. -/
def AsksPermitted (state : Machine × Origins) : Event → Prop
  | .mprotect slot _ address length protection =>
    ∀ x, address ≤ x → x < rangeEnd address length → ∀ mapping,
      state.2 slot x = some mapping → mapping.Permits protection
  | _ => True

theorem AsksPermitted.keeps {platform : Platform} {state : Machine × Origins} {event : Event}
    (h : AsksPermitted state event) : event.Keeps platform Restricts state := by
  intro slot f hcall first stop protection hgrants x hlow hhigh mapping horigin part _
  cases event with
  | mprotect other answers address length given =>
    obtain ⟨rfl, -⟩ := Prod.mk.inj (Option.some.inj hcall)
    obtain ⟨rfl, rfl, rfl⟩ := hgrants
    exact h x hlow hhigh mapping horigin
  | _ => exact hgrants.elim

/-- As long as no protection call asks for more, every area of a display mapping stays
non-executable and every area of a shared file mapping read-only. -/
theorem restrictions_survive (platform : Platform) (events : List Event) (m : Machine)
    (origins : Origins) (slot : Fin 128) (process : UserProcess)
    (hguard : Guarded (originStep platform) AsksPermitted (originBoot platform) events)
    (hrun : run (originStep platform) (originBoot platform) events = some (m, origins))
    (hlive : m.slots slot = .live process) :
    ∀ x vma mapping, findVma process.vmas x = some vma → origins slot x = some mapping →
      (mapping.backing = .display → hasBit vma.protection NPK_PROT_EXEC = false) ∧
      ∀ handle size, mapping.backing = .file handle size →
        hasBit mapping.flags NPK_MAP_SHARED = true →
          hasBit vma.protection NPK_PROT_WRITE = false := by
  intro x vma mapping hfind horigin
  have hkeeps : Guarded (originStep platform)
      (fun state event => event.Keeps platform Restricts state) (originBoot platform) events :=
    hguard.mono fun _ _ => AsksPermitted.keeps
  have horiginates := Originates.run (restricts_passes platform) hkeeps hrun
  have hcontains := List.find?_some hfind
  obtain ⟨hlow, hhigh⟩ := Vma.contains_iff.1 hcontains
  exact horiginates.related slot process hlive vma (List.mem_of_find?_eq_some hfind) x hlow hhigh
    mapping horigin

def sampleFileMap : MmapArguments :=
  { requested := 0, length := 4096, protection := NPK_PROT_READ, flags := NPK_MAP_SHARED
    fd := 3, handle := some 64, offset := 0 }

/-- The first process maps a file and asks for another protection of its first page. -/
def protectedFileRun (protection : Word) : List Event :=
  [.create sampleAnswers sampleExec true, .mmap 1 sampleAnswers sampleFileMap,
    .mprotect 1 sampleAnswers 0x1000000000 4096 protection]

theorem restrictions_survive_sample :
    ∃ m origins process vma mapping,
      run (originStep samplePlatform) (originBoot samplePlatform)
        (protectedFileRun NPK_PROT_READ) = some (m, origins) ∧
      m.slots 1 = .live process ∧ findVma process.vmas 0x1000000000 = some vma ∧
      origins 1 0x1000000000 = some mapping ∧ mapping.backing = .file 64 0x10000 ∧
      hasBit mapping.flags NPK_MAP_SHARED = true ∧
      hasBit vma.protection NPK_PROT_WRITE = false := by
  have hsample : ((run (originStep samplePlatform) (sampleBoot, fun _ _ => none)
      (protectedFileRun NPK_PROT_READ)).bind fun state =>
      (state.1.processAt 1).map fun process =>
        ((findVma process.vmas 0x1000000000).isSome,
          (state.2 1 0x1000000000).map fun mapping => (mapping.backing, mapping.flags))) =
      some (true, some (.file 64 0x10000, NPK_MAP_SHARED)) := by
    decide +kernel
  obtain ⟨m, origins, process, hrun, hlive, hvalue⟩ := sample_origins hsample
  obtain ⟨hfind, hmapping⟩ := Prod.mk.inj hvalue
  obtain ⟨vma, hvma⟩ := Option.isSome_iff_exists.1 hfind
  obtain ⟨mapping, horigin, hpair⟩ := Option.map_eq_some_iff.1 hmapping
  obtain ⟨hbacking, hflags⟩ := Prod.mk.inj hpair
  have hguard : Guarded (originStep samplePlatform) AsksPermitted (originBoot samplePlatform)
      (protectedFileRun NPK_PROT_READ) := by
    refine Guarded.of_forall ?_
    intro state event hevent
    rcases List.mem_cons.1 hevent with rfl | hevent
    · trivial
    · rcases List.mem_cons.1 hevent with rfl | hevent
      · trivial
      · obtain rfl := List.mem_singleton.1 hevent
        intro x _ _ mapping _
        exact ⟨fun _ => by decide, fun _ _ _ _ => by decide⟩
  have hshared : hasBit mapping.flags NPK_MAP_SHARED = true := by
    rw [hflags]
    decide
  exact ⟨m, origins, process, vma, mapping, hrun, hlive, hvma, horigin, hbacking, hshared,
    (restrictions_survive samplePlatform _ m origins 1 process hguard hrun hlive 0x1000000000 vma
      mapping hvma horigin).2 64 0x10000 hbacking hshared⟩

/-- The first process asks for a writable page of its file mapping, maps the display
and asks for an executable page of it. -/
def widenedRun : List Event :=
  protectedFileRun (NPK_PROT_READ ||| NPK_PROT_WRITE) ++
    [.displayClaim 1, .displayMap 1 sampleAnswers 0 NPK_MAP_SHARED,
      .mprotect 1 sampleAnswers 0x1000002000 4096 (NPK_PROT_READ ||| NPK_PROT_EXEC)]

/-- A protection call makes a shared file mapping writable and a display mapping
executable. -/
theorem restrictions_lost :
    ∃ m origins process vma mapping vma' mapping',
      run (originStep samplePlatform) (originBoot samplePlatform) widenedRun =
        some (m, origins) ∧
      m.slots 1 = .live process ∧
      (findVma process.vmas 0x1000000000 = some vma ∧ origins 1 0x1000000000 = some mapping ∧
        mapping.backing = .file 64 0x10000 ∧ hasBit mapping.flags NPK_MAP_SHARED = true ∧
        hasBit vma.protection NPK_PROT_WRITE = true) ∧
      findVma process.vmas 0x1000002000 = some vma' ∧ origins 1 0x1000002000 = some mapping' ∧
        mapping'.backing = .display ∧ hasBit vma'.protection NPK_PROT_EXEC = true := by
  have hsample : ((run (originStep samplePlatform) (sampleBoot, fun _ _ => none)
      widenedRun).bind fun state =>
      (state.1.processAt 1).map fun process =>
        [0x1000000000, 0x1000002000].map fun x =>
          ((findVma process.vmas x).map Vma.protection,
            (state.2 1 x).map fun mapping => (mapping.backing, mapping.flags))) =
      some [(some (NPK_PROT_READ ||| NPK_PROT_WRITE), some (.file 64 0x10000, NPK_MAP_SHARED)),
        (some (NPK_PROT_READ ||| NPK_PROT_EXEC), some (.display, NPK_MAP_SHARED))] := by
    decide +kernel
  obtain ⟨m, origins, process, hrun, hlive, hvalue⟩ := sample_origins hsample
  simp only [List.map_cons, List.map_nil, List.cons.injEq, Prod.mk.injEq,
    Option.map_eq_some_iff] at hvalue
  obtain ⟨⟨⟨vma, hvma, hprotection⟩, mapping, horigin, hbacking, hflags⟩,
    ⟨⟨vma', hvma', hprotection'⟩, mapping', horigin', hbacking', -⟩, -⟩ := hvalue
  refine ⟨m, origins, process, vma, mapping, vma', mapping', hrun, hlive,
    ⟨hvma, horigin, hbacking, ?_, ?_⟩, hvma', horigin', hbacking', ?_⟩
  · rw [hflags]
    decide
  · rw [hprotection]
    decide
  · rw [hprotection']
    decide

end NPKernel.Vm
