import Mathlib

/-!
# Lengths of AML packages

The kernel looks for the `_S5_` package in the bytes of the DSDT to learn how to power the
machine off.  A package starts with its length, in one to four bytes.  The decoder takes
four bits of the first byte, which is right for the longer forms; the form of one byte has
six.
-/

namespace NPKernel.Acpi

abbrev Aml := List (BitVec 8)

def ACPI_PKG_MAX_BYTES : ℕ := 4
def ACPI_SDT_HEADER_SIZE : ℕ := 36

/-- The length and the number of bytes it is encoded in. -/
def amlPackageLength (aml : Aml) : Option (ℕ × ℕ) :=
  match aml with
  | [] => none
  | first :: rest =>
    let follow := first.toNat >>> 6
    if ACPI_PKG_MAX_BYTES ≤ follow || aml.length < follow + 1 then none
    else
      let value := (List.range follow).foldl
        (fun value i => value ||| (rest.getD i 0).toNat <<< (4 + 8 * i)) (first.toNat &&& 0x0f)
      some (value, follow + 1)

/-- The low byte of an integer whose other bytes are zero, and its size. -/
def amlInteger (aml : Aml) : Option (BitVec 8 × ℕ) :=
  match aml with
  | [] => none
  | kind :: rest =>
    if kind = 0x00 then some (0, 1)
    else if kind = 0x01 then some (1, 1)
    else
      match [(0x0a, 1), (0x0b, 2), (0x0c, 4), (0x0e, 8)].lookup kind with
      | none => none
      | some size =>
        if aml.length < size + 1 || (rest.take size).tail.any (· ≠ 0) then none
        else some (rest.headD 0, size + 1)

def s5Name : Aml := [0x08, 0x5f, 0x53, 0x35, 0x5f, 0x12]

/-- What an iteration of `acpi_find_s5` finds at the start of `aml`: nothing, so that the
loop goes on, or the sleep types if the first is accepted. -/
def s5Package (aml : Aml) : Option (Option (BitVec 8 × Option (BitVec 8))) :=
  if aml.length ≤ 6 || aml.take 6 ≠ s5Name then none
  else
    match amlPackageLength (aml.drop 6) with
    | none => none
    | some (length, bytes) =>
      if length < bytes + 1 || aml.length - 6 < length then none
      else
        let package := ((aml.drop 6).drop bytes).take (length - bytes)
        let count := package.headD 0
        if count.toNat < 1 then none
        else
          match amlInteger package.tail with
          | none => none
          | some (first, used) =>
            if 8 ≤ first.toNat then some none
            else if 2 ≤ count.toNat && used + 1 < package.length then
              some (some (first, (amlInteger (package.tail.drop used)).map Prod.fst))
            else some (some (first, none))

def findS5 : Aml → Option (BitVec 8 × Option (BitVec 8))
  | [] => none
  | byte :: rest => (s5Package (byte :: rest)).getD (findS5 rest)

def acpiFindS5 (dsdt : Aml) : Option (BitVec 8 × Option (BitVec 8)) :=
  if dsdt.length < ACPI_SDT_HEADER_SIZE then none
  else findS5 (dsdt.drop ACPI_SDT_HEADER_SIZE)

/-! ## The encodings -/

/-- The form with `follow` bytes behind the first has room for the length. -/
def Fits (follow length : ℕ) : Prop :=
  follow < 4 ∧ length < if follow = 0 then 2 ^ 6 else 2 ^ (4 + 8 * follow)

def packageLengthEncoding (follow length : ℕ) : Aml :=
  if follow = 0 then [BitVec.ofNat 8 length]
  else BitVec.ofNat 8 (64 * follow + length % 16) ::
    (List.range follow).map fun i => BitVec.ofNat 8 (length / 2 ^ (4 + 8 * i))

inductive IntegerForm : Aml → BitVec 8 → Prop
  | zero : IntegerForm [0x00] 0
  | one : IntegerForm [0x01] 1
  | byte (value : BitVec 8) : IntegerForm [0x0a, value] value
  | word (value : BitVec 8) : IntegerForm [0x0b, value, 0] value
  | dword (value : BitVec 8) : IntegerForm [0x0c, value, 0, 0, 0] value
  | qword (value : BitVec 8) : IntegerForm [0x0e, value, 0, 0, 0, 0, 0, 0, 0] value

/-- The first `_S5_` package of the table is well formed, with its length in this form,
and begins with the sleep type `value`. -/
inductive S5Table (follow length : ℕ) (value : BitVec 8) : Aml → Prop
  | intro (header before : Aml) (count : BitVec 8) (integer more rest aml : Aml)
      (haml : aml = before ++ (s5Name ++ (packageLengthEncoding follow length ++
        (count :: (integer ++ more) ++ rest))))
      (hheader : header.length = ACPI_SDT_HEADER_SIZE)
      (hfirst : ∀ i < before.length, (aml.drop i).take 6 ≠ s5Name)
      (hlength : follow + 1 + (1 + integer.length + more.length) = length) (hcount : count ≠ 0)
      (hinteger : IntegerForm integer value) (hvalue : value.toNat < 8) :
      S5Table follow length value (header ++ aml)

section decoding

variable {follow length : ℕ}

theorem packageLengthEncoding_length :
    (packageLengthEncoding follow length).length = follow + 1 := by
  unfold packageLengthEncoding
  split
  next h => simp [h]
  · simp

/-- Each byte of the loop adds eight bits above those that are there. -/
theorem followLoop_eq (rest : Aml) {count : ℕ} (hcount : count ≤ follow) :
    (List.range count).foldl (fun value i => value |||
        ((((List.range follow).map fun i => BitVec.ofNat 8 (length / 2 ^ (4 + 8 * i))) ++ rest).getD
          i 0).toNat <<< (4 + 8 * i)) (length % 16) = length % 2 ^ (4 + 8 * count) := by
  induction count with
  | zero => rfl
  | succ count ih =>
    have hbyte : (((List.range follow).map fun i => BitVec.ofNat 8 (length / 2 ^ (4 + 8 * i))) ++
        rest).getD count 0 = BitVec.ofNat 8 (length / 2 ^ (4 + 8 * count)) := by
      rw [List.getD_eq_getElem?_getD, List.getElem?_append_left (by simpa using hcount)]
      simp [Nat.lt_of_succ_le hcount]
    rw [List.range_succ, List.foldl_append, ih (by omega), List.foldl_cons, List.foldl_nil, hbyte,
      BitVec.toNat_ofNat, Nat.or_comm,
      ← Nat.shiftLeft_add_eq_or_of_lt (Nat.mod_lt _ (Nat.two_pow_pos _)), Nat.shiftLeft_eq,
      show 4 + 8 * (count + 1) = 4 + 8 * count + 8 by omega, Nat.pow_add _ (4 + 8 * count) 8,
      @Nat.mod_mul (2 ^ (4 + 8 * count)) (2 ^ 8) length]
    ring

theorem amlPackageLength_encoding (h : Fits follow length) (rest : Aml) :
    amlPackageLength (packageLengthEncoding follow length ++ rest) =
      some (if follow = 0 then length % 16 else length, follow + 1) := by
  obtain ⟨hfollow, hlength⟩ := h
  unfold packageLengthEncoding
  by_cases hzero : follow = 0
  · subst hzero
    simp only [if_true] at hlength ⊢
    have hfirst : (BitVec.ofNat 8 length).toNat = length := by
      rw [BitVec.toNat_ofNat]
      omega
    have hshift : length >>> 6 = 0 := by
      rw [Nat.shiftRight_eq_div_pow, Nat.div_eq_of_lt hlength]
    have hmask : length &&& 15 = length % 16 := Nat.and_two_pow_sub_one_eq_mod length 4
    simp [amlPackageLength, hfirst, hshift, hmask, ACPI_PKG_MAX_BYTES]
  · simp only [if_neg hzero] at hlength ⊢
    have hfirst : (BitVec.ofNat 8 (64 * follow + length % 16)).toNat =
        64 * follow + length % 16 := by
      rw [BitVec.toNat_ofNat]
      omega
    have hshift : (64 * follow + length % 16) >>> 6 = follow := by
      rw [Nat.shiftRight_eq_div_pow]
      omega
    have hmask : (64 * follow + length % 16) &&& 15 = length % 16 := by
      rw [show 15 = 2 ^ 4 - 1 by rfl, Nat.and_two_pow_sub_one_eq_mod]
      omega
    simp only [amlPackageLength, List.cons_append, hfirst, hshift, hmask,
      followLoop_eq rest le_rfl, Nat.mod_eq_of_lt hlength]
    rw [if_neg]
    simp [ACPI_PKG_MAX_BYTES]
    exact decide_eq_false (not_le.2 hfollow)

theorem amlInteger_form {integer more : Aml} {value : BitVec 8} (h : IntegerForm integer value) :
    amlInteger (integer ++ more) = some (value, integer.length) := by
  cases h <;> simp [amlInteger, List.lookup]

theorem s5Package_accepted {count value : BitVec 8} {integer more rest content : Aml}
    (hcontent : content = packageLengthEncoding follow length ++
      (count :: (integer ++ more) ++ rest))
    (hdecodes : amlPackageLength content = some (length, follow + 1))
    (hlength : follow + 1 + (1 + integer.length + more.length) = length) (hcount : count ≠ 0)
    (hinteger : IntegerForm integer value) (hvalue : value.toNat < 8) :
    ∃ second, s5Package (s5Name ++ content) = some (some (value, second)) := by
  have hdrop : (content.drop (follow + 1)).take (length - (follow + 1)) =
      count :: (integer ++ more) := by
    rw [hcontent, List.drop_left' packageLengthEncoding_length]
    exact List.take_left' (by simp; omega)
  have hname : (s5Name ++ content).drop 6 = content := rfl
  have hpositive : ¬count.toNat < 1 := by
    intro h
    exact hcount (BitVec.eq_of_toNat_eq (by simpa using h))
  have hroom : ¬(length < follow + 1 + 1 ∨ (s5Name ++ content).length - 6 < length) := by
    simp only [hcontent, List.length_append, packageLengthEncoding_length, List.length_cons,
      show s5Name.length = 6 from rfl]
    omega
  unfold s5Package
  rw [if_neg (by simp [s5Name, hcontent]; omega), hname, hdecodes]
  dsimp only
  rw [if_neg (by simpa using hroom), hdrop]
  simp only [List.headD_cons, List.tail_cons, amlInteger_form hinteger, if_neg hpositive,
    if_neg (not_le.2 hvalue)]
  by_cases hsecond : 2 ≤ count.toNat && integer.length + 1 < (count :: (integer ++ more)).length
  · exact ⟨_, if_pos hsecond⟩
  · exact ⟨_, if_neg hsecond⟩

theorem findS5_of_first {before aml : Aml} {types : BitVec 8 × Option (BitVec 8)}
    (hbefore : ∀ i < before.length, ((before ++ aml).drop i).take 6 ≠ s5Name)
    (hfound : s5Package aml = some (some types)) : findS5 (before ++ aml) = some types := by
  induction before with
  | nil =>
    cases aml with
    | nil => simp [s5Package] at hfound
    | cons byte rest => simp [findS5, hfound]
  | cons byte before ih =>
    have hfirst : s5Package (byte :: (before ++ aml)) = none := by
      apply if_pos
      rw [Bool.or_eq_true, decide_eq_true_eq, decide_eq_true_eq]
      exact Or.inr (hbefore 0 (Nat.zero_lt_succ _))
    rw [List.cons_append, findS5, hfirst, Option.getD_none]
    apply ih
    intro i hi
    exact hbefore (i + 1) (Nat.succ_lt_succ hi)

/-- Lengths are decoded and tables accepted, unless the one-byte form holds more than four
bits. -/
theorem package_lengths_iff (follow length : ℕ) (hfits : Fits follow length) :
    (∀ rest, amlPackageLength (packageLengthEncoding follow length ++ rest) =
        some (length, follow + 1)) ∧
      (∀ value dsdt, S5Table follow length value dsdt →
        ∃ second, acpiFindS5 dsdt = some (value, second)) ↔
      (follow = 0 → length < 16) := by
  constructor
  · rintro ⟨hdecodes, -⟩ hzero
    have hlength := hdecodes []
    rw [amlPackageLength_encoding hfits, if_pos hzero] at hlength
    simp only [Option.some.injEq, Prod.mk.injEq, and_true] at hlength
    omega
  · intro hsmall
    have hdecodes : ∀ rest, amlPackageLength (packageLengthEncoding follow length ++ rest) =
        some (length, follow + 1) := by
      intro rest
      rw [amlPackageLength_encoding hfits]
      split
      next hzero => rw [Nat.mod_eq_of_lt (hsmall hzero)]
      · rfl
    refine ⟨hdecodes, ?_⟩
    rintro value _ ⟨header, before, count, integer, more, rest, aml, rfl, hheader, hfirst, hlength,
      hcount, hinteger, hvalue⟩
    obtain ⟨second, hfound⟩ := s5Package_accepted rfl (hdecodes _) hlength hcount hinteger
      hvalue
    refine ⟨second, ?_⟩
    unfold acpiFindS5
    rw [if_neg (by simp [hheader]), List.drop_left' hheader]
    exact findS5_of_first hfirst hfound

/-- A table whose package of four bytes holds the integer 5. -/
def sampleDsdt : Aml :=
  List.replicate ACPI_SDT_HEADER_SIZE 0 ++ ([0] ++ (s5Name ++ [4, 1, 0x0a, 5]))

theorem package_lengths_iff_four :
    Fits 0 4 ∧ amlPackageLength [4, 1, 0x0a, 5] = some (4, 1) ∧
      ∃ second, acpiFindS5 sampleDsdt = some (5, second) := by
  have hfits : Fits 0 4 := by
    unfold Fits
    decide
  obtain ⟨hdecodes, haccepts⟩ := (package_lengths_iff 0 4 hfits).2 fun _ => by decide
  refine ⟨hfits, hdecodes [1, 0x0a, 5], haccepts 5 sampleDsdt ?_⟩
  exact .intro _ [0] 1 [0x0a, 5] [] [] _ rfl (List.length_replicate ..) (by decide) rfl (by decide)
    (.byte 5) (by decide)

/-- A package of 19 bytes in the form of one byte: its length is read as 3. -/
theorem package_length_truncated :
    Fits 0 19 ∧ amlPackageLength (packageLengthEncoding 0 19) = some (3, 1) := by
  unfold Fits
  decide

end decoding

end NPKernel.Acpi
