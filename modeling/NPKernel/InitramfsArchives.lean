import NPKernel.BitwiseCrc
import NPKernel.VirtualMemory

/-!
# The initramfs archive

`parse_newc` of `src/fs/vfs.c` over the memory that begins with the archive, with the index
of every byte that it examines.  `strncmp` looks at a byte only if those before it are the
same, so it may go on behind the end of the archive.
-/

namespace NPKernel

namespace Archives

open BitwiseCrc (Byte)
open Relation
open Vm (addOverflow)

abbrev Bytes := ℕ → Byte

/-- `strncmp` with a text of the same length: whether it is there, and the bytes examined. -/
def strncmp (archive : Bytes) : ℕ → List Byte → Bool × List ℕ
  | _, [] => (true, [])
  | start, byte :: text =>
    if archive start ≠ byte then (false, [start])
    else
      let rest := strncmp archive (start + 1) text
      (rest.1, start :: rest.2)

def hexDigit (c : Byte) : Option ℕ :=
  if 0x30 ≤ c ∧ c ≤ 0x39 then some (c.toNat - 0x30)
  else if 0x61 ≤ c ∧ c ≤ 0x66 then some (c.toNat - 0x61 + 10)
  else if 0x41 ≤ c ∧ c ≤ 0x46 then some (c.toNat - 0x41 + 10)
  else none

/-- The value so far, and the digits that are left. -/
def hexField (archive : Bytes) (offset : ℕ) : ℕ → ℕ → ℕ × List ℕ
  | value, 0 => (value, [])
  | value, length + 1 =>
    match hexDigit (archive offset) with
    | none => (0, [offset])
    | some digit =>
      let rest := hexField archive (offset + 1) ((value * 16 + digit) % 2 ^ 32) length
      (rest.1, offset :: rest.2)

def align4Checked (value : ℕ) : Option ℕ :=
  if UINT64_MAX - 3 < value then none else some ((value + 3) / 4 * 4)

def newcMagic : List Byte := [0x30, 0x37, 0x30, 0x37, 0x30, 0x31]

def trailerName : List Byte := [0x54, 0x52, 0x41, 0x49, 0x4c, 0x45, 0x52, 0x21, 0x21, 0x21]

structure File where
  nameAt : ℕ
  dataAt : ℕ
  size : ℕ

def paddedEnd (size start length : ℕ) : Option ℕ :=
  if addOverflow start length then none
  else (align4Checked (start + length)).filter (· ≤ size)

/-- An iteration of the loop of `parse_newc`: the bytes examined and, unless it is the last
one, the offset of the next record and the file to register. -/
def parseRecord (archive : Bytes) (size offset : ℕ) : List ℕ × Option (ℕ × Option File) :=
  let magic := strncmp archive offset newcMagic
  if !magic.1 then (magic.2, none)
  else
    let mode := hexField archive (offset + 14) 0 8
    let fileSize := hexField archive (offset + 54) 0 8
    let nameSize := hexField archive (offset + 94) 0 8
    let header := magic.2 ++ mode.2 ++ fileSize.2 ++ nameSize.2
    let nameAt := offset + 110
    if nameSize.1 = 0 ∨ size - offset - 110 < nameSize.1 then (header, none)
    else
      match paddedEnd size nameAt nameSize.1 with
      | none => (header, none)
      | some nameEnd =>
        let trailer := strncmp archive nameAt trailerName
        if trailer.1 then (header ++ trailer.2, none)
        else
          match paddedEnd size nameEnd fileSize.1 with
          | none => (header ++ trailer.2, none)
          | some dataEnd =>
            let last := nameAt + nameSize.1 - 1
            if mode.1 &&& 0xf000 ≠ 0x8000 then (header ++ trailer.2, some (dataEnd, none))
            else
              (header ++ trailer.2 ++ [last], some (dataEnd,
                if archive last = 0 then some ⟨nameAt, nameEnd, fileSize.1⟩ else none))

def MAX_INITRD_FILES : ℕ := 64

def vfsRegisterFile (files : List File) (file : File) : List File :=
  if MAX_INITRD_FILES ≤ files.length then files else files ++ [file]

structure Parsed where
  files : List File := []
  reads : List ℕ := []

def parseLoop (archive : Bytes) (size : ℕ) : ℕ → ℕ → Parsed → Option Parsed
  | 0, _, _ => none
  | fuel + 1, offset, parsed =>
    if size < offset ∨ size - offset < 110 then some parsed
    else
      let record := parseRecord archive size offset
      let reads := parsed.reads ++ record.1
      match record.2 with
      | none => some { parsed with reads := reads }
      | some (next, file) =>
        parseLoop archive size fuel next
          { files := file.elim parsed.files (vfsRegisterFile parsed.files), reads := reads }

def parseNewc (archive : Bytes) (size : ℕ) : Option Parsed :=
  parseLoop archive size (size + 1) 0 {}

/-! ## The bytes examined -/

section records

variable {archive : Bytes} {size offset : ℕ}

theorem mem_hexField {value length i : ℕ} (h : i ∈ (hexField archive offset value length).2) :
    offset ≤ i ∧ i < offset + length := by
  induction length generalizing offset value with
  | zero => cases h
  | succ length ih =>
    rw [hexField] at h
    split at h
    · rw [List.mem_singleton.1 h]
      omega
    · rcases List.mem_cons.1 h with rfl | hrest
      · omega
      · have := ih hrest
        omega

theorem mem_strncmp {text : List Byte} {start i : ℕ} (h : i ∈ (strncmp archive start text).2) :
    start ≤ i ∧ i < start + text.length := by
  induction text generalizing start with
  | nil => cases h
  | cons byte text ih =>
    rw [strncmp] at h
    rw [List.length_cons]
    split at h
    · rw [List.mem_singleton.1 h]
      omega
    · rcases List.mem_cons.1 h with rfl | hrest
      · omega
      · have := ih hrest
        omega

/-- A text is compared inside the archive if it fits, or if it differs before the end. -/
theorem strncmp_inside_iff {text : List Byte} {start : ℕ} (hstart : start ≤ size) :
    (∀ i ∈ (strncmp archive start text).2, i < size) ↔
      start + text.length ≤ size ∨
        ∃ i, start + i < size ∧ text[i]? ≠ some (archive (start + i)) := by
  induction text generalizing start with
  | nil => simp [strncmp, hstart]
  | cons byte text ih =>
    rw [strncmp, List.length_cons]
    split
    next hbyte =>
      simp only [List.mem_singleton, forall_eq]
      constructor
      · intro hlt
        exact Or.inr ⟨0, hlt, fun h => hbyte (Option.some.inj h).symm⟩
      · rintro (hfits | ⟨i, hi, -⟩) <;> omega
    next hbyte =>
      rw [List.forall_mem_cons]
      constructor
      · rintro ⟨hlt, hrest⟩
        rcases (ih hlt).1 hrest with hfits | ⟨i, hi, hne⟩
        · exact Or.inl (by omega)
        · refine Or.inr ⟨i + 1, by omega, ?_⟩
          rwa [List.getElem?_cons_succ, ← Nat.add_assoc, Nat.add_right_comm]
      · rintro (hfits | ⟨i, hi, hne⟩)
        · exact ⟨by omega, (ih (by omega)).2 (Or.inl (by omega))⟩
        · refine ⟨by omega, (ih (by omega)).2 (Or.inr ?_)⟩
          cases i with
          | zero => exact absurd (congrArg some (not_not.1 hbyte).symm) hne
          | succ i =>
            rw [List.getElem?_cons_succ, ← Nat.add_assoc, Nat.add_right_comm] at hne
            exact ⟨i, by omega, hne⟩

theorem paddedEnd_eq_some {start length stop : ℕ} (h : paddedEnd size start length = some stop) :
    start + length ≤ stop ∧ stop ≤ size := by
  unfold paddedEnd at h
  split at h
  · cases h
  obtain ⟨haligned, hstop⟩ := Option.filter_eq_some_iff.1 h
  unfold align4Checked at haligned
  split at haligned
  · cases haligned
  · have := Option.some.inj haligned
    have := of_decide_eq_true hstop
    omega

def NameChecked (archive : Bytes) (size offset : ℕ) : Prop :=
  let nameSize := (hexField archive (offset + 94) 0 8).1
  (strncmp archive offset newcMagic).1 = true ∧ nameSize ≠ 0 ∧ nameSize ≤ size - offset - 110 ∧
    (paddedEnd size (offset + 110) nameSize).isSome = true

/-- If the name is compared, ten bytes follow the header, or one that is not the trailer's. -/
def TrailerApart (archive : Bytes) (size offset : ℕ) : Prop :=
  NameChecked archive size offset → offset + 120 ≤ size ∨
    ∃ i, offset + 110 + i < size ∧ trailerName[i]? ≠ some (archive (offset + 110 + i))

theorem parseRecord_spec (h : offset + 110 ≤ size) :
    ((∀ i ∈ (parseRecord archive size offset).1, i < size) ↔ TrailerApart archive size offset) ∧
      ∀ next file, (parseRecord archive size offset).2 = some (next, file) →
        offset + 110 < next ∧ next ≤ size ∧ ∀ found, file = some found →
          found.dataAt + found.size ≤ size ∧
            ∃ stop, found.nameAt ≤ stop ∧ stop < size ∧ archive stop = 0 := by
  have hmagic : ∀ i ∈ (strncmp archive offset newcMagic).2, i < size := by
    intro i hi
    have := mem_strncmp hi
    simp only [newcMagic, List.length_cons, List.length_nil] at this
    omega
  have hfield : ∀ {start : ℕ}, start + 8 ≤ offset + 110 →
      ∀ i ∈ (hexField archive start 0 8).2, i < size := by
    intro start hstart i hi
    have := mem_hexField hi
    omega
  have hmode := hfield (show offset + 14 + 8 ≤ offset + 110 by omega)
  have hfileSize := hfield (show offset + 54 + 8 ≤ offset + 110 by omega)
  have hnameSize := hfield (show offset + 94 + 8 ≤ offset + 110 by omega)
  have htrailer := @strncmp_inside_iff archive size trailerName _ h
  unfold parseRecord TrailerApart NameChecked
  dsimp only
  generalize strncmp archive offset newcMagic = magic at hmagic
  generalize hexField archive (offset + 14) 0 8 = mode at hmode
  generalize hexField archive (offset + 54) 0 8 = fileSize at hfileSize
  generalize hexField archive (offset + 94) 0 8 = nameSize at hnameSize
  generalize strncmp archive (offset + 110) trailerName = trailer at htrailer
  have hheader : ∀ i ∈ magic.2 ++ mode.2 ++ fileSize.2 ++ nameSize.2, i < size := by
    simp only [List.forall_mem_append]
    exact ⟨⟨⟨hmagic, hmode⟩, hfileSize⟩, hnameSize⟩
  split
  next hno =>
    refine ⟨⟨fun _ hchecked => ?_, fun _ => hmagic⟩, fun _ _ hnone => by cases hnone⟩
    rw [hchecked.1] at hno
    cases hno
  next hyes =>
    have hgood : magic.1 = true := by simpa using hyes
    split
    next hsize =>
      refine ⟨⟨fun _ hchecked => ?_, fun _ => hheader⟩, fun _ _ hnone => by cases hnone⟩
      omega
    next hsize =>
    rw [not_or, Nat.not_lt] at hsize
    cases hname : paddedEnd size (offset + 110) nameSize.1 with
    | none =>
      refine ⟨⟨fun _ hchecked => ?_, fun _ => hheader⟩, fun _ _ hnone => by cases hnone⟩
      cases hchecked.2.2.2
    | some nameEnd =>
      have hnameEnd := paddedEnd_eq_some hname
      have hreads : ∀ more : List ℕ, (∀ i ∈ more, i < size) →
          ((∀ i ∈ magic.2 ++ mode.2 ++ fileSize.2 ++ nameSize.2 ++ trailer.2 ++ more,
            i < size) ↔ (magic.1 = true ∧ nameSize.1 ≠ 0 ∧
              nameSize.1 ≤ size - offset - 110 ∧ (some nameEnd).isSome = true →
              offset + 120 ≤ size ∨ ∃ i, offset + 110 + i < size ∧
                trailerName[i]? ≠ some (archive (offset + 110 + i)))) := by
        intro more hmore
        rw [List.forall_mem_append, List.forall_mem_append, htrailer]
        constructor
        · intro hall _
          exact hall.1.2
        · intro hall
          exact ⟨⟨hheader, hall ⟨hgood, hsize.1, hsize.2, rfl⟩⟩, hmore⟩
      have hnoMore := hreads [] (by simp)
      rw [List.append_nil] at hnoMore
      dsimp only
      split
      · exact ⟨hnoMore, fun _ _ hnone => by cases hnone⟩
      cases hdata : paddedEnd size nameEnd fileSize.1 with
      | none => exact ⟨hnoMore, fun _ _ hnone => by cases hnone⟩
      | some dataEnd =>
        have hdataEnd := paddedEnd_eq_some hdata
        have hlater : offset + 110 < dataEnd :=
          calc offset + 110 < offset + 110 + nameSize.1 :=
                Nat.lt_add_of_pos_right (Nat.pos_of_ne_zero hsize.1)
            _ ≤ nameEnd := hnameEnd.1
            _ ≤ dataEnd := (Nat.le_add_right _ _).trans hdataEnd.1
        dsimp only
        split
        · refine ⟨hnoMore, fun next file hsome => ?_⟩
          cases hsome
          refine ⟨hlater, hdataEnd.2, fun found hfound => ?_⟩
          cases hfound
        · refine ⟨hreads _ (by simp; omega), fun next file hsome => ?_⟩
          cases hsome
          refine ⟨hlater, hdataEnd.2, fun found hfound => ?_⟩
          split at hfound
          next hzero =>
            cases hfound
            constructor
            · exact hdataEnd.1.trans hdataEnd.2
            · refine ⟨offset + 110 + nameSize.1 - 1, ?_, by omega, hzero⟩
              change offset + 110 ≤ _
              omega
          · cases hfound

end records

/-! ## The whole archive -/

def NextRecord (archive : Bytes) (size offset next : ℕ) : Prop :=
  offset + 110 ≤ size ∧ ∃ file, (parseRecord archive size offset).2 = some (next, file)

def Reached (archive : Bytes) (size start offset : ℕ) : Prop :=
  ReflTransGen (NextRecord archive size) start offset ∧ offset + 110 ≤ size

theorem mem_vfsRegisterFile {files : List File} {file found : File}
    (h : found ∈ vfsRegisterFile files file) : found ∈ files ∨ found = file := by
  unfold vfsRegisterFile at h
  split at h
  · exact Or.inl h
  · simpa using h

theorem reached_iff {archive : Bytes} {size start offset : ℕ} (h : start + 110 ≤ size) :
    Reached archive size start offset ↔ offset = start ∨ ∃ next file,
      (parseRecord archive size start).2 = some (next, file) ∧
        Reached archive size next offset := by
  constructor
  · rintro ⟨hpath, hfits⟩
    rcases hpath.cases_head with rfl | ⟨next, ⟨-, file, hrecord⟩, hrest⟩
    · exact Or.inl rfl
    · exact Or.inr ⟨next, file, hrecord, hrest, hfits⟩
  · rintro (rfl | ⟨next, file, hrecord, hrest, hfits⟩)
    · exact ⟨ReflTransGen.refl, h⟩
    · exact ⟨ReflTransGen.head ⟨h, file, hrecord⟩ hrest, hfits⟩

theorem not_reached {archive : Bytes} {size start offset : ℕ} (h : size < start + 110) :
    ¬Reached archive size start offset := by
  rintro ⟨hpath, hfits⟩
  rcases hpath.cases_head with rfl | ⟨next, ⟨hstart, -⟩, -⟩ <;> omega

/-- The loop ends, and what it has examined and registered comes from the records reached. -/
theorem parseLoop_spec {archive : Bytes} {size fuel start : ℕ} {before : Parsed}
    (hstart : start ≤ size) (hfuel : size < start + fuel) :
    ∃ parsed, parseLoop archive size fuel start before = some parsed ∧
      (∀ i, i ∈ parsed.reads ↔ i ∈ before.reads ∨ ∃ offset, Reached archive size start offset ∧
        i ∈ (parseRecord archive size offset).1) ∧
      ∀ file ∈ parsed.files, file ∈ before.files ∨ ∃ offset next,
        Reached archive size start offset ∧
          (parseRecord archive size offset).2 = some (next, some file) := by
  -- Each record is longer than its header, so the fuel that is left covers the bytes left.
  induction fuel generalizing start before with
  | zero => omega
  | succ fuel ih =>
    rw [parseLoop]
    split
    next hend =>
      refine ⟨before, rfl, fun i => ?_, fun file hfile => Or.inl hfile⟩
      simp [not_reached (show size < start + 110 by omega)]
    next hmore =>
    have hfits : start + 110 ≤ size := by omega
    have hspec := (@parseRecord_spec archive size start hfits).2
    have hreached := @reached_iff archive size start
    dsimp only
    cases hrecord : (parseRecord archive size start).2 with
    | none =>
      refine ⟨_, rfl, fun i => ?_, fun file hfile => Or.inl hfile⟩
      simp [hreached hfits, hrecord]
    | some found =>
      obtain ⟨next, file⟩ := found
      obtain ⟨hnext, hinside, -⟩ := hspec next file hrecord
      have hbelow : ∀ offset, Reached archive size start offset ↔
          offset = start ∨ Reached archive size next offset := by
        intro offset
        rw [hreached hfits, hrecord]
        simp
      obtain ⟨parsed, hparsed, hreads, hfiles⟩ :=
        @ih next ⟨file.elim before.files (vfsRegisterFile before.files),
          before.reads ++ (parseRecord archive size start).1⟩ hinside (by omega)
      refine ⟨parsed, hparsed, fun i => ?_, fun other hother => ?_⟩
      · rw [hreads]
        simp [hbelow, or_assoc, or_and_right, exists_or]
      · rcases hfiles other hother with hfirst | ⟨offset, last, hoffset, hsome⟩
        · cases file with
          | none => exact Or.inl hfirst
          | some file =>
            rcases mem_vfsRegisterFile hfirst with hbefore | rfl
            · exact Or.inl hbefore
            · exact Or.inr ⟨start, next, (hbelow start).2 (Or.inl rfl), hrecord⟩
        · exact Or.inr ⟨offset, last, (hbelow offset).2 (Or.inr hoffset), hsome⟩

/-- The loop terminates, it examines no byte behind the archive, and the files have their
data and the end of their names inside. -/
def InBounds (archive : Bytes) (size : ℕ) : Prop :=
  ∃ parsed, parseNewc archive size = some parsed ∧ (∀ i ∈ parsed.reads, i < size) ∧
    ∀ file ∈ parsed.files, file.dataAt + file.size ≤ size ∧
      ∃ stop, file.nameAt ≤ stop ∧ stop < size ∧ archive stop = 0

theorem parse_in_bounds_iff (archive : Bytes) (size : ℕ) :
    InBounds archive size ↔
      ∀ offset, Reached archive size 0 offset → TrailerApart archive size offset := by
  obtain ⟨parsed, hparsed, hreads, hfiles⟩ :=
    @parseLoop_spec archive size (size + 1) 0 {} (Nat.zero_le _) (by omega)
  constructor
  · rintro ⟨parsed', hparsed', hinside, -⟩ offset hreached
    obtain rfl := Option.some.inj (hparsed.symm.trans hparsed')
    apply (parseRecord_spec hreached.2).1.1
    intro i hi
    exact hinside i ((hreads i).2 (Or.inr ⟨offset, hreached, hi⟩))
  · intro hapart
    refine ⟨parsed, hparsed, ?_, ?_⟩
    · intro i hi
      rcases (hreads i).1 hi with hnone | ⟨offset, hreached, hread⟩
      · cases hnone
      · exact (parseRecord_spec hreached.2).1.2 (hapart offset hreached) i hread
    · intro file hfile
      rcases hfiles file hfile with hnone | ⟨offset, next, hreached, hrecord⟩
      · cases hnone
      · exact ((parseRecord_spec hreached.2).2 next _ hrecord).2.2 file rfl

/-- An archive that ends with the first two letters of the trailer's name. -/
def cutTrailer : List Byte :=
  newcMagic ++ List.replicate 95 0x30 ++ [0x32] ++ List.replicate 8 0x30 ++ [0x54, 0x52]

theorem cut_trailer_examined_behind_end : ¬InBounds (cutTrailer.getD · 0) cutTrailer.length := by
  rintro ⟨parsed, hparsed, hreads, -⟩
  have hbehind : ∃ parsed, parseNewc (cutTrailer.getD · 0) cutTrailer.length = some parsed ∧
      cutTrailer.length ∈ parsed.reads := ⟨_, rfl, by decide +kernel⟩
  obtain ⟨other, hother, hmem⟩ := hbehind
  obtain rfl := Option.some.inj (hparsed.symm.trans hother)
  exact lt_irrefl _ (hreads _ hmem)

end Archives

end NPKernel
