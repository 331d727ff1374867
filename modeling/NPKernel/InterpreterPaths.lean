import NPKernel.ElfValidation

/-!
# The interpreter's path

A header of kind `PT_INTERP` names the program that loads the image.  The check of the
name goes through it once and looks at a component when it meets the slash behind it, or
the last character.  At the last character the component is taken without it, so that a
last component of two dots passes and one of two dots and a character does not.
-/

namespace NPKernel.Vm

def interpreterField (image : Image) (ph : Elf64ProgramHeader) : List (BitVec 8) :=
  (image.drop ph.offset).take ph.filesz

def pathComponents (path : List (BitVec 8)) : List (List (BitVec 8)) := path.splitOn 0x2f

def dotDot : List (BitVec 8) := [0x2e, 0x2e]

def Printable (value : BitVec 8) : Prop := 0x20 ≤ value.toNat ∧ value.toNat ≠ 0x7f

/-- The field lies in the image and holds `path`, an absolute path, and the terminator. -/
structure HoldsPath (image : Image) (ph : Elf64ProgramHeader) (path : List (BitVec 8)) :
    Prop where
  inside : ph.offset + ph.filesz ≤ image.length
  short : ph.filesz ≤ NPK_ELF_INTERP_MAX
  field : interpreterField image ph = path ++ [0]
  absolute : path.head? = some 0x2f
  printable : ∀ value ∈ path, Printable value

/-- The loop refuses a component of two dots that a slash follows, and a last one of two
dots and a character. -/
def ComponentsPass (components : List (List (BitVec 8))) : Prop :=
  dotDot ∉ components.dropLast ∧ ∀ value, components.getLast? ≠ some (dotDot ++ [value])

section components

variable {image : Image} {offset start : ℕ} {current rest tail : List (BitVec 8)}

theorem slash_free (h : 0x2f ∉ current) : ∀ value ∈ current, (value == 0x2f) = false := by
  intro value hvalue
  rw [beq_eq_false_iff_ne]
  exact ne_of_mem_of_not_mem hvalue h

theorem pathComponents_slash (h : 0x2f ∉ current) (rest : List (BitVec 8)) :
    pathComponents (current ++ 0x2f :: rest) = current :: pathComponents rest :=
  List.splitOnP_append_cons_of_forall_mem (slash_free h) 0x2f (by simp) rest

theorem pathComponents_single (h : 0x2f ∉ current) : pathComponents current = [current] :=
  List.splitOnP_eq_singleton (slash_free h)

theorem imageByte_of_drop {position : ℕ} {front : List (BitVec 8)} {value : BitVec 8}
    (h : image.drop position = front ++ value :: tail) :
    imageByte image (position + front.length) = value := by
  have hget : (image.drop position)[front.length]? = some value := by simp [h]
  rw [List.getElem?_drop] at hget
  rw [imageByte, List.getD_eq_getElem?_getD, hget, Option.getD_some]

theorem current_eq_dotDot (hdrop : image.drop (offset + start) = current ++ tail) :
    (current.length = 2 ∧ imageByte image (offset + start) = 0x2e ∧
      imageByte image (offset + start + 1) = 0x2e) ↔ current = dotDot := by
  by_cases hlength : current.length = 2
  · obtain ⟨first, second, rfl⟩ := List.length_eq_two.1 hlength
    have hfirst : imageByte image (offset + start) = first :=
      @imageByte_of_drop image (second :: tail) (offset + start) [] first hdrop
    have hsecond : imageByte image (offset + start + 1) = second :=
      @imageByte_of_drop image tail (offset + start) [first] second hdrop
    simp [hfirst, hsecond, dotDot]
  · constructor
    · intro h
      exact absurd h.1 hlength
    · rintro rfl
      exact absurd rfl hlength

theorem componentsPass_cons {components : List (List (BitVec 8))} (h : components ≠ []) :
    ComponentsPass (current :: components) ↔ current ≠ dotDot ∧ ComponentsPass components := by
  obtain ⟨first, others, rfl⟩ := List.exists_cons_of_ne_nil h
  simp only [ComponentsPass, List.dropLast_cons_cons, List.mem_cons, not_or,
    List.getLast?_cons_cons, and_assoc, ne_comm, ne_eq]

theorem componentsPass_single :
    ComponentsPass [current] ↔ ∀ value, current ≠ dotDot ++ [value] := by
  simp [ComponentsPass]

/-- The loop in the middle of a component, of which it has read `current`. -/
theorem interpreterComponents_eq {filesz position : ℕ}
    (hposition : position = start + current.length)
    (hfilesz : filesz = position + rest.length + 1) (hsmall : filesz < 2 ^ 64)
    (hdrop : image.drop (offset + start) = current ++ (rest ++ tail)) (hcurrent : 0x2f ∉ current)
    (hrest : rest ≠ []) :
    interpreterComponents image offset filesz rest.length position start = true ↔
      (∀ value ∈ rest, Printable value) ∧ ComponentsPass (pathComponents (current ++ rest)) := by
  induction rest generalizing current start position with
  | nil => exact absurd rfl hrest
  | cons value rest ih =>
    have hvalue : imageByte image (offset + position) = value := by
      rw [hposition, ← Nat.add_assoc]
      exact imageByte_of_drop hdrop
    have hlength : (position + 2 ^ 64 - start) % 2 ^ 64 = current.length := by omega
    have hdots := current_eq_dotDot hdrop
    have hnext : image.drop (offset + (position + 1)) = [] ++ (rest ++ tail) := by
      rw [hposition, show offset + (start + current.length + 1) =
        offset + start + (current.length + 1) by omega, ← List.drop_drop, hdrop]
      simp
    rw [List.length_cons] at hfilesz ⊢
    rw [interpreterComponents]
    simp only [hvalue, hlength, List.mem_cons, forall_eq_or_imp, Bool.or_eq_true,
      decide_eq_true_eq, Bool.and_eq_true, beq_iff_eq, and_assoc, hdots]
    by_cases hprintable : Printable value
    · have hkept : ¬((value.toNat = 0 ∨ value.toNat < 0x20) ∨ value.toNat = 0x7f) := by
        unfold Printable at hprintable
        omega
      rw [if_neg hkept]
      simp only [hprintable, true_and]
      by_cases hslash : value = 0x2f
      · subst hslash
        have hcomponents : pathComponents rest ≠ [] := List.splitOnP_ne_nil _ _
        rw [if_neg (by simp), pathComponents_slash hcurrent, componentsPass_cons hcomponents]
        by_cases hcase : current = dotDot
        · simp [hcase]
        rw [if_neg hcase]
        by_cases hend : rest = []
        · subst hend
          have hempty : pathComponents [] = [[]] := rfl
          simp [interpreterComponents, hempty, componentsPass_single, hcase]
        · have hmore := @ih _ [] (position + 1) rfl (by omega) hnext List.not_mem_nil hend
          simp [hmore, hcase]
      · have hcode : value.toNat ≠ 0x2f := fun heq => hslash (BitVec.eq_of_toNat_eq heq)
        have hmore : 0x2f ∉ current ++ [value] := by
          rw [List.mem_append, List.mem_singleton, not_or]
          exact ⟨hcurrent, Ne.symm hslash⟩
        by_cases hend : rest = []
        · subst hend
          rw [if_neg (by simp [hfilesz]), pathComponents_single hmore, componentsPass_single]
          by_cases hcase : current = dotDot
          · simp [hcase]
          · simp [hcase, interpreterComponents]
        · have hlong : position + 1 ≠ filesz - 1 := by
            have := List.length_pos_iff.2 hend
            omega
          rw [if_pos (by simp [hcode, hlong]), ih (by simp [hposition, Nat.add_assoc]) (by omega)
            (by simpa using hdrop) hmore hend, List.append_assoc, List.singleton_append]
    · have hrefused : (value.toNat = 0 ∨ value.toNat < 0x20) ∨ value.toNat = 0x7f := by
        simp only [Printable, not_and_or] at hprintable
        omega
      rw [if_pos hrefused]
      simp [hprintable]

end components

/-! ## The check of the field -/

section field

variable {image : Image} {ph : Elf64ProgramHeader}

/-- The length that is computed at the first slash wraps around and is never two. -/
theorem interpreterComponents_start {path tail : List (BitVec 8)} {offset : ℕ}
    (hdrop : image.drop offset = path ++ tail) (habsolute : path.head? = some 0x2f)
    (hsmall : path.length + 1 < 2 ^ 64) :
    interpreterComponents image offset (path.length + 1) path.length 0 1 = true ↔
      (∀ value ∈ path, Printable value) ∧ ComponentsPass (pathComponents path) := by
  obtain ⟨rest, rfl⟩ := List.head?_eq_some_iff.1 habsolute
  have hvalue : imageByte image (offset + 0) = 0x2f := @imageByte_of_drop image _ offset [] _ hdrop
  have hsplit : pathComponents (0x2f :: rest) = [] :: pathComponents rest :=
    pathComponents_slash List.not_mem_nil rest
  have hcomponents : pathComponents rest ≠ [] := List.splitOnP_ne_nil _ _
  have hslash : Printable 0x2f := by
    constructor <;> decide
  rw [List.length_cons, interpreterComponents, hsplit, componentsPass_cons hcomponents]
  simp only [hvalue, List.mem_cons, forall_eq_or_imp, hslash, true_and]
  by_cases hend : rest = []
  · subst hend
    have hempty : pathComponents [] = [[]] := rfl
    simp [interpreterComponents, hempty, componentsPass_single]
    simp [dotDot]
  · have hnext : image.drop (offset + 1) = [] ++ (rest ++ tail) := by
      rw [← List.drop_drop, hdrop]
      rfl
    have hrest := @interpreterComponents_eq image offset 1 [] rest tail (rest.length + 1 + 1) 1 rfl
      (by omega) hsmall hnext List.not_mem_nil hend
    have hdots : ([] : List (BitVec 8)) ≠ dotDot := by decide
    simp [hrest, hdots]

variable {path : List (BitVec 8)}

theorem HoldsPath.unique {path' : List (BitVec 8)} (h : HoldsPath image ph path)
    (h' : HoldsPath image ph path') : path' = path :=
  List.append_cancel_right (h'.field.symm.trans h.field)

theorem drop_eq_of_field {last : BitVec 8} (h : interpreterField image ph = path ++ [last]) :
    image.drop ph.offset = path ++ last :: (image.drop ph.offset).drop ph.filesz := by
  conv_lhs => rw [← List.take_append_drop ph.filesz (image.drop ph.offset)]
  rw [← interpreterField, h, List.append_assoc, List.singleton_append]

theorem interpreterField_length (h : ph.offset + ph.filesz ≤ image.length) :
    (interpreterField image ph).length = ph.filesz := by
  rw [interpreterField, List.length_take, List.length_drop]
  omega

theorem HoldsPath.filesz_eq (h : HoldsPath image ph path) : ph.filesz = path.length + 1 := by
  rw [← interpreterField_length h.inside, h.field]
  simp

theorem interpreterFieldValid_holds (h : interpreterFieldValid image ph = true) :
    ph.filesz ≤ ph.memsz ∧
      ∃ path, HoldsPath image ph path ∧ ComponentsPass (pathComponents path) := by
  unfold interpreterFieldValid at h
  split at h
  · simp at h
  next hguard =>
  split at h
  · simp at h
  next hends =>
  simp only [Bool.or_eq_true, decide_eq_true_eq, not_or, not_lt, ne_eq, not_not] at hguard hends
  obtain ⟨⟨⟨⟨hpos, hmemsz⟩, hshort⟩, hoffset⟩, hsize⟩ := hguard
  have hinside : ph.offset + ph.filesz ≤ image.length := by omega
  have hsmall : ph.filesz ≤ 256 := hshort
  have hlength := interpreterField_length hinside
  obtain ⟨path, last, hfield⟩ := (List.eq_nil_or_concat' (interpreterField image ph)).resolve_left
    (by rw [← List.length_eq_zero_iff, hlength]; exact hpos)
  have hdrop := drop_eq_of_field hfield
  have hfilesz : ph.filesz = path.length + 1 := by rw [← hlength, hfield]; simp
  have hlast : last = 0 := by
    rw [← hends.1, hfilesz]
    exact (imageByte_of_drop hdrop).symm
  have habsolute : path.head? = some 0x2f := by
    cases path with
    | nil =>
      have hfirst : imageByte image ph.offset = last := @imageByte_of_drop image _ _ [] _ hdrop
      rw [hends.2, hlast] at hfirst
      exact absurd hfirst (by decide)
    | cons first rest =>
      have hfirst : imageByte image ph.offset = first := @imageByte_of_drop image _ _ [] _ hdrop
      rw [List.head?_cons, ← hfirst, hends.2]
  rw [hfilesz, Nat.add_sub_cancel, interpreterComponents_start hdrop habsolute (by omega)] at h
  exact ⟨hmemsz, path, ⟨hinside, hshort, hlast ▸ hfield, habsolute, h.1⟩, h.2⟩

theorem HoldsPath.accepted (h : HoldsPath image ph path) (hmemsz : ph.filesz ≤ ph.memsz)
    (hpass : ComponentsPass (pathComponents path)) : interpreterFieldValid image ph = true := by
  have hdrop := drop_eq_of_field h.field
  have hinside := h.inside
  have hshort : ph.filesz ≤ 256 := h.short
  have hfilesz := h.filesz_eq
  have hlast : imageByte image (ph.offset + ph.filesz - 1) = 0 := by
    rw [hfilesz]
    exact imageByte_of_drop hdrop
  have hfirst : imageByte image ph.offset = 0x2f := by
    obtain ⟨rest, rfl⟩ := List.head?_eq_some_iff.1 h.absolute
    exact @imageByte_of_drop image _ _ [] _ hdrop
  have hguard : ¬(((((ph.filesz = 0 ∨ ph.memsz < ph.filesz) ∨ NPK_ELF_INTERP_MAX < ph.filesz) ∨
      image.length < ph.offset) ∨ image.length - ph.offset < ph.filesz)) := by
    have := h.short
    omega
  unfold interpreterFieldValid
  simp only [Bool.or_eq_true, decide_eq_true_eq]
  rw [if_neg hguard, if_neg (by simp [hlast, hfirst]), hfilesz, Nat.add_sub_cancel,
    interpreterComponents_start hdrop h.absolute (by omega)]
  exact ⟨h.printable, hpass⟩

/-- The check accepts what it should, unless the last component is two dots or two dots
and a character, or the header's sizes are out of order. -/
theorem interpreter_check_exact_iff (image : Image) (ph : Elf64ProgramHeader) :
    (interpreterFieldValid image ph = true ↔
        ∃ path, HoldsPath image ph path ∧ dotDot ∉ pathComponents path) ↔
      ∀ path, HoldsPath image ph path → dotDot ∉ (pathComponents path).dropLast →
        if (pathComponents path).getLast? = some dotDot then ph.memsz < ph.filesz
        else ph.filesz ≤ ph.memsz ∧
          ∀ value, (pathComponents path).getLast? ≠ some (dotDot ++ [value]) := by
  by_cases hholds : ∃ path, HoldsPath image ph path
  · obtain ⟨path, hpath⟩ := hholds
    have hvalid : interpreterFieldValid image ph = true ↔
        ph.filesz ≤ ph.memsz ∧ ComponentsPass (pathComponents path) := by
      constructor
      · intro h
        obtain ⟨hmemsz, path', hpath', hpass⟩ := interpreterFieldValid_holds h
        exact ⟨hmemsz, hpath.unique hpath' ▸ hpass⟩
      · intro h
        exact hpath.accepted h.1 h.2
    have hmem : dotDot ∈ pathComponents path ↔ dotDot ∈ (pathComponents path).dropLast ∨
        (pathComponents path).getLast? = some dotDot := by
      have hne : pathComponents path ≠ [] := List.splitOnP_ne_nil _ _
      conv_lhs => rw [← List.dropLast_append_getLast hne]
      rw [List.getLast?_eq_some_getLast hne]
      simp [eq_comm]
    have hspec : (∃ path', HoldsPath image ph path' ∧ dotDot ∉ pathComponents path') ↔
        dotDot ∉ pathComponents path := by
      constructor
      · rintro ⟨path', hpath', hclean⟩
        exact hpath.unique hpath' ▸ hclean
      · intro hclean
        exact ⟨path, hpath, hclean⟩
    have honly : ∀ P : List (BitVec 8) → Prop, (∀ path', HoldsPath image ph path' → P path') ↔
        P path := by
      intro P
      constructor
      · intro h
        exact h path hpath
      · intro h path' hpath'
        exact hpath.unique hpath' ▸ h
    rw [hvalid, hspec, honly, hmem, ComponentsPass]
    by_cases hearly : dotDot ∈ (pathComponents path).dropLast
    · simp [hearly]
    split
    next hdots => simp [hearly, hdots]
    next hdots => simp [hearly, hdots]
  · have hrefused : interpreterFieldValid image ph ≠ true := by
      intro h
      obtain ⟨-, path, hpath, -⟩ := interpreterFieldValid_holds h
      exact hholds ⟨path, hpath⟩
    constructor
    · intro _ path hpath
      exact absurd ⟨path, hpath⟩ hholds
    · intro _
      constructor
      · intro h
        exact absurd h hrefused
      · rintro ⟨path, hpath, -⟩
        exact absurd ⟨path, hpath⟩ hholds

/-- The path `/..` is accepted. -/
theorem interpreter_parent_accepted :
    ¬(interpreterFieldValid [0x2f, 0x2e, 0x2e, 0] ⟨PT_INTERP, 4, 0, 0, 4, 4, 1⟩ = true ↔
      ∃ path, HoldsPath [0x2f, 0x2e, 0x2e, 0] ⟨PT_INTERP, 4, 0, 0, 4, 4, 1⟩ path ∧
        dotDot ∉ pathComponents path) := by
  intro h
  obtain ⟨path, hholds, hclean⟩ := h.1 (by decide)
  have hpath : path ++ [0] = [0x2f, 0x2e, 0x2e] ++ [0] := hholds.field.symm
  rw [List.append_cancel_right hpath] at hclean
  exact hclean (by decide)

/-! ## The lookup of the path -/

/-- `elf64_get_interpreter` with its result and the buffer that it leaves. -/
def elf64GetInterpreterInto (image : Image) (buffer : List (BitVec 8)) : ℤ × List (BitVec 8) :=
  match headerValid image with
  | none => (ELF_ENOEXEC, buffer)
  | some header =>
    if buffer.length < 2 then (ELF_ENOEXEC, buffer)
    else
      match (programHeaders image header).find? fun ph => ph.kind == PT_INTERP with
      | none => (0, buffer.set 0 0)
      | some ph =>
        if !interpreterFieldValid image ph || buffer.length ≤ ph.filesz then (ELF_ENOEXEC, buffer)
        else ((ph.filesz : ℤ) - 1, interpreterField image ph ++ buffer.drop ph.filesz)

theorem elf64GetInterpreter_into (image : Image) (buffer : List (BitVec 8)) :
    elf64GetInterpreter image buffer.length =
      if (elf64GetInterpreterInto image buffer).1 < 0 then none
      else some ((elf64GetInterpreterInto image buffer).2.take
        (elf64GetInterpreterInto image buffer).1.toNat) := by
  unfold elf64GetInterpreter elf64GetInterpreterInto
  cases headerValid image with
  | none => rfl
  | some header =>
    dsimp only
    split
    · rfl
    cases (programHeaders image header).find? fun ph => ph.kind == PT_INTERP with
    | none => rfl
    | some ph =>
      dsimp only
      split
      · rfl
      next hvalid =>
      simp only [Bool.or_eq_true, not_or, Bool.not_eq_true', Bool.not_eq_false] at hvalid
      obtain ⟨-, path, hholds, -⟩ := interpreterFieldValid_holds hvalid.1
      have hfilesz := hholds.filesz_eq
      have hdrop := drop_eq_of_field hholds.field
      rw [if_neg (by omega), hholds.field, hdrop, hfilesz, List.append_assoc]
      simp

theorem foldlM_step {α β : Type*} {f : α → β → Option α} {items : List β} {seen last : α}
    (h : items.foldlM f seen = some last) :
    ∀ item ∈ items, ∃ before after, f before item = some after := by
  induction items generalizing seen with
  | nil => simp
  | cons item items ih =>
    rw [List.foldlM_cons] at h
    obtain ⟨next, hstep, hrest⟩ := Option.bind_eq_some_iff.1 h
    rw [List.forall_mem_cons]
    exact ⟨⟨seen, next, hstep⟩, ih hrest⟩

theorem elf64Validate_interpreter (h : elf64Validate image = true) :
    headerValid image = some (elfHeader image) ∧
      ∀ ph ∈ programHeaders image (elfHeader image), ph.kind = PT_INTERP →
        interpreterFieldValid image ph = true := by
  unfold elf64Validate at h
  cases hheader : headerValid image with
  | none => simp [hheader] at h
  | some header =>
    obtain rfl := headerValid_eq_some hheader
    refine ⟨rfl, fun ph hph hkind => ?_⟩
    simp only [hheader, elf64ValidateAtBias] at h
    split at h
    · simp at h
    split at h
    · simp at h
    next hloop =>
    obtain ⟨before, after, hstep⟩ := foldlM_step hloop ph hph
    simp only [validateProgram, hkind, if_true] at hstep
    split at hstep
    · simp at hstep
    next hvalid =>
      simp only [Bool.or_eq_true, not_or, Bool.not_eq_true', Bool.not_eq_false] at hvalid
      exact hvalid.2

/-- The lookup in an accepted image, with the buffers of the kernel, returns the path
unless the field has the greatest size that the check allows. -/
theorem interpreter_lookup_agrees_iff (image : Image) (buffer : List (BitVec 8))
    (hvalid : elf64Validate image = true) (hbuffer : buffer.length = NPK_ELF_INTERP_MAX) :
    ((∀ ph ∈ programHeaders image (elfHeader image), ph.kind ≠ PT_INTERP) →
        (elf64GetInterpreterInto image buffer).1 = 0) ∧
      (∀ ph, (programHeaders image (elfHeader image)).find? (·.kind == PT_INTERP) = some ph →
        ∃ path, HoldsPath image ph path ∧ elf64GetInterpreterInto image buffer =
          ((path.length : ℤ), path ++ 0 :: buffer.drop (path.length + 1))) ↔
      ∀ ph, (programHeaders image (elfHeader image)).find? (·.kind == PT_INTERP) = some ph →
        ph.filesz ≠ NPK_ELF_INTERP_MAX := by
  obtain ⟨hheader, hfields⟩ := elf64Validate_interpreter hvalid
  have hlong : ¬NPK_ELF_INTERP_MAX < 2 := by decide
  cases hfind : (programHeaders image (elfHeader image)).find? (·.kind == PT_INTERP) with
  | none => simp [elf64GetInterpreterInto, hheader, hbuffer, NPK_ELF_INTERP_MAX, hfind]
  | some ph =>
    have hkind := beq_iff_eq.1 (List.find?_some hfind :)
    have hmem := List.mem_of_find?_eq_some hfind
    have hfield := hfields ph hmem hkind
    obtain ⟨-, path, hholds, -⟩ := interpreterFieldValid_holds hfield
    have hfilesz := hholds.filesz_eq
    have hshort := hholds.short
    have hsome : ¬∀ ph ∈ programHeaders image (elfHeader image), ph.kind ≠ PT_INTERP :=
      fun h => h ph hmem hkind
    simp only [hsome, false_imp_iff, true_and, Option.some.injEq, forall_eq']
    constructor
    · rintro ⟨path', hholds', hcall⟩ hmax
      simp only [elf64GetInterpreterInto, hheader, if_neg hlong, hfind, hfield, hbuffer, hmax,
        le_refl, decide_true, Bool.or_true, if_true] at hcall
      have hresult := congrArg Prod.fst hcall
      simp only [ELF_ENOEXEC] at hresult
      omega
    · intro hmax
      refine ⟨path, hholds, ?_⟩
      have hfits : ¬NPK_ELF_INTERP_MAX ≤ ph.filesz := by omega
      simp only [elf64GetInterpreterInto, hheader, if_neg hlong, hfind, hfield, hbuffer, hfits]
      simp [hholds.field, hfilesz]

/-- The sample with a second header, for the path of an interpreter. -/
def interpreterImage (path : List (BitVec 8)) : Image :=
  let size := [BitVec.ofNat 8 (path.length + 1), BitVec.ofNat 8 ((path.length + 1) / 256)] ++
    List.replicate 6 0
  sampleImage.set 56 2 ++ [3, 0, 0, 0, 4, 0, 0, 0, 176, 0, 0, 0, 0, 0, 0, 0] ++
    List.replicate 16 0 ++ size ++ size ++ List.replicate 8 0 ++ path ++ [0]

theorem interpreter_lookup_agrees_sample :
    let image := interpreterImage [0x2f, 0x61]
    ∃ ph path, ph ∈ programHeaders image (elfHeader image) ∧ HoldsPath image ph path ∧
      elf64GetInterpreterInto image (List.replicate 256 0) =
        ((path.length : ℤ), path ++ 0 :: (List.replicate 256 0).drop (path.length + 1)) := by
  intro image
  have hvalid : elf64Validate image = true := by decide +kernel
  have hfield : ((programHeaders image (elfHeader image)).find? (·.kind == PT_INTERP)).map
      (·.filesz) = some 3 := by
    decide +kernel
  obtain ⟨ph, hfind, hfilesz⟩ := Option.map_eq_some_iff.1 hfield
  obtain ⟨path, hpath⟩ := ((interpreter_lookup_agrees_iff image (List.replicate 256 0) hvalid
    (List.length_replicate ..)).2 (by
      intro found hfound
      rw [← Option.some.inj (hfind.symm.trans hfound), hfilesz]
      decide)).2 ph hfind
  exact ⟨ph, path, List.mem_of_find?_eq_some hfind, hpath⟩

def longInterpreterImage : Image := interpreterImage (0x2f :: List.replicate 254 0x61)

/-- The image is accepted, and the lookup refuses its path. -/
theorem long_interpreter_refused :
    elf64Validate longInterpreterImage = true ∧
      (elf64GetInterpreterInto longInterpreterImage (List.replicate 256 0)).1 = ELF_ENOEXEC := by
  decide +kernel

end field

end NPKernel.Vm
