import NPKernel.BitwiseCrc
import NPKernel.MachineWords

/-!
# Formatted output

`vsnprintf` appends the characters of a text one by one, counting all of them and storing those
that fit.  A format is given as the characters before its NUL, and no result stands for a read
beyond it, which is where a format that ends inside of a conversion leads.
-/

namespace NPKernel.Formatting

open BitwiseCrc

variable {capacity : ℕ} {format text : List Byte}

def ascii (c : Char) : Byte := .ofNat 8 c.toNat

/-- The variadic arguments in their order, and the characters before the NUL at an address. -/
structure Arguments where
  words : ℕ → Word
  string : Word → List Byte

structure Output where
  buffer : ℕ → Byte
  length : ℕ

def appendChar (capacity : ℕ) (out : Output) (character : Byte) : Output where
  buffer :=
    if capacity ≠ 0 ∧ out.length + 1 < capacity then
      Function.update out.buffer out.length character
    else out.buffer
  length := out.length + 1

def digit (upper : Bool) (d : ℕ) : Byte :=
  .ofNat 8 (if d < 10 then 48 + d else if upper then 55 + d else 87 + d)

/-- The array `digits` of `append_unsigned`, with room for more digits. -/
def digits (base : ℕ) (upper : Bool) : ℕ → ℕ → List Byte
  | 0, _ => []
  | room + 1, value =>
    digit upper (value % base) ::
      if value / base = 0 then [] else digits base upper room (value / base)

def appendUnsigned (value : Word) (base : ℕ) (upper : Bool) : List Byte :=
  (digits base upper 32 value.toNat).reverse

def isModifier (c : Byte) : Bool := c = ascii 'l' ∨ c = ascii 'z'

/-- The characters that a conversion appends, and the number of arguments that it takes.  The types
`long` and `long long` have the same size. -/
def conversion (args : Arguments) (next longCount : ℕ) (specifier : Byte) : List Byte × ℕ :=
  let word := args.words next
  if specifier = ascii 's' then
    (if word = 0 then "(null)".toList.map ascii else args.string word, 1)
  else if specifier = ascii 'c' then ([word.setWidth 8], 1)
  else if specifier = ascii 'd' ∨ specifier = ascii 'i' then
    let value := if longCount = 0 then (word.setWidth 32).signExtend 64 else word
    (if value.msb then ascii '-' :: appendUnsigned (-(value + 1) + 1) 10 false
      else appendUnsigned value 10 false, 1)
  else if specifier = ascii 'p' then
    (ascii '0' :: ascii 'x' :: appendUnsigned word 16 false, 1)
  else if specifier = ascii 'u' ∨ specifier = ascii 'x' ∨ specifier = ascii 'X' then
    (appendUnsigned (if longCount = 0 then (word.setWidth 32).setWidth 64 else word)
      (if specifier = ascii 'u' then 10 else 16) (specifier = ascii 'X'), 1)
  else ([ascii '%', specifier], 0)

/-- The loop of `vsnprintf`, outside of a conversion or behind some of its length modifiers.  At the
NUL inside of a conversion the loop goes on with the character behind it. -/
def scan (capacity : ℕ) (args : Arguments) : Option ℕ → ℕ → Output → List Byte → Option Output
  | none, _, out, [] => some out
  | some _, _, _, [] => none
  | none, next, out, c :: rest =>
    if c = ascii '%' then scan capacity args (some 0) next out rest
    else scan capacity args none next (appendChar capacity out c) rest
  | some longCount, next, out, c :: rest =>
    if longCount = 0 ∧ c = ascii '%' then
      scan capacity args none next (appendChar capacity out c) rest
    else if isModifier c then scan capacity args (some (longCount + 1)) next out rest
    else
      let made := conversion args next longCount c
      scan capacity args none (next + made.2) (made.1.foldl (appendChar capacity) out) rest

def vsnprintf (null : Bool) (buffer : ℕ → Byte) (capacity : ℕ) (format : List Byte)
    (args : Arguments) : Option (ℤ × (ℕ → Byte)) :=
  if null ∧ capacity ≠ 0 then some (-1, buffer)
  else
    (scan capacity args none 0 ⟨buffer, 0⟩ format).map fun out =>
      (if 0x7fffffff < out.length then -1 else (out.length : ℤ),
        if capacity = 0 then out.buffer
        else
          Function.update out.buffer (if out.length < capacity then out.length else capacity - 1) 0)

/-- The format ends behind a percent sign and length modifiers. -/
def endsInside (inside : Bool) (format : List Byte) : Bool :=
  format.foldl (fun inside c => if inside then isModifier c else c = ascii '%') inside

/-- The text that a format stands for. -/
def fullText (args : Arguments) : Option ℕ → ℕ → List Byte → List Byte
  | _, _, [] => []
  | none, next, c :: rest =>
    if c = ascii '%' then fullText args (some 0) next rest
    else c :: fullText args none next rest
  | some longCount, next, c :: rest =>
    if longCount = 0 ∧ c = ascii '%' then c :: fullText args none next rest
    else if isModifier c then fullText args (some (longCount + 1)) next rest
    else
      let made := conversion args next longCount c
      made.1 ++ fullText args none (next + made.2) rest

theorem scan_eq (args : Arguments) (longCount : Option ℕ) (next : ℕ) (out : Output) :
    scan capacity args longCount next out format =
      if endsInside longCount.isSome format then none
      else some ((fullText args longCount next format).foldl (appendChar capacity) out) := by
  have hpercent : isModifier (ascii '%') = false := by decide
  induction format generalizing longCount next out with
  | nil => cases longCount <;> rfl
  | cons c rest ih =>
    unfold endsInside at ih ⊢
    cases longCount with
    | none =>
      by_cases hc : c = ascii '%'
      · simp [scan, fullText, ih, hc]
      · simp [scan, fullText, ih, hc]
    | some longCount =>
      by_cases hdouble : longCount = 0 ∧ c = ascii '%'
      · simp [scan, fullText, ih, hdouble, hpercent]
      by_cases hmodifier : isModifier c = true
      · simp only [scan, fullText, ih, if_neg hdouble, hmodifier, List.foldl_cons]
        simp
      · simp only [scan, fullText, ih, if_neg hdouble, hmodifier, List.foldl_cons]
        simp

/-- The whole format is read, and nothing behind its NUL, exactly when it does not end inside of a
conversion. -/
theorem format_reads_iff (null : Bool) (buffer : ℕ → Byte) (capacity : ℕ) (format : List Byte)
    (args : Arguments) :
    (vsnprintf null buffer capacity format args).isSome ↔
      (null ∧ capacity ≠ 0) ∨ endsInside false format = false := by
  unfold vsnprintf
  rw [scan_eq]
  by_cases hrefused : null = true ∧ capacity ≠ 0
  · simp [hrefused]
  · simp [hrefused]

theorem lone_percent_runs_on :
    vsnprintf false (fun _ => 0) 8 [ascii '%'] ⟨fun _ => 0, fun _ => []⟩ = none := by
  rfl

/-! ## Text that does not fit -/

def textOf (args : Arguments) (format : List Byte) : List Byte := fullText args none 0 format

/-- The buffer when the text has been stored as far as it fits. -/
def stored (text : List Byte) (capacity : ℕ) (buffer : ℕ → Byte) (k : ℕ) : Byte :=
  if k < min text.length (capacity - 1) then text.getD k 0
  else if k = min text.length (capacity - 1) ∧ capacity ≠ 0 then 0
  else buffer k

theorem foldl_appendChar (buffer : ℕ → Byte) :
    text.foldl (appendChar capacity) ⟨buffer, 0⟩ =
      ⟨fun k => if k < text.length ∧ k + 1 < capacity then text.getD k 0 else buffer k,
        text.length⟩ := by
  induction text using List.reverseRecOn with
  | nil => simp
  | append_singleton text c ih =>
    rw [List.foldl_append, ih, List.foldl_cons, List.foldl_nil, appendChar, List.length_append]
    congr 1
    funext k
    by_cases hk : k = text.length
    · subst hk
      by_cases hfits : text.length + 1 < capacity
      · simp [hfits, Nat.ne_zero_of_lt hfits]
      · simp [hfits]
    · have hlast : k < text.length + 1 ↔ k < text.length := by omega
      by_cases hin : k < text.length <;> split <;> simp [hk, hlast, hin]

/-- What a call of the printf family depends on besides its format and arguments. -/
structure Environment where
  writable : Bool
  allocates : Bool
  memory : ℕ → Byte
  write : ℕ → List Byte → ℤ

/-- Whether all bytes were written, and the bytes that were. -/
def writeAll (write : ℕ → List Byte → ℤ) (call : ℕ) (bytes : List Byte) : Bool × List Byte :=
  if bytes = [] then (true, [])
  else if write call bytes ≤ 0 then (false, [])
  else
    let rest := writeAll write (call + 1) (bytes.drop (write call bytes).toNat)
    (rest.1, bytes.take (write call bytes).toNat ++ rest.2)
  termination_by bytes.length
  decreasing_by
    rename_i hbytes hresult
    have hlength := List.length_pos_iff.2 hbytes
    rw [List.length_drop]
    omega

/-- The result, and the bytes that were written. -/
def vformatToFile (env : Environment) (format : List Byte) (args : Arguments) :
    Option (ℤ × List Byte) :=
  if !env.writable then some (-1, [])
  else
    (vsnprintf true (fun _ => 0) 0 format args).bind fun measured =>
      if measured.1 < 0 ∨ 1024 * 1024 < measured.1 then some (-1, [])
      else if 256 ≤ measured.1 ∧ !env.allocates then some (-1, [])
      else
        (vsnprintf false env.memory (measured.1.toNat + 1) format args).map fun rendered =>
          if rendered.1 = measured.1 then
            let written := writeAll env.write 0 ((List.range measured.1.toNat).map rendered.2)
            (if written.1 then measured.1 else -1, written.2)
          else (-1, [])

/-- The stream is writable, memory is there and every write takes some bytes. -/
structure Environment.Delivers (env : Environment) : Prop where
  writable : env.writable = true
  allocates : env.allocates = true
  writes : ∀ call bytes, 0 < env.write call bytes

theorem writeAll_eq {write : ℕ → List Byte → ℤ} (hwrites : ∀ call bytes, 0 < write call bytes)
    (call : ℕ) (bytes : List Byte) : writeAll write call bytes = (true, bytes) := by
  fun_induction writeAll write call bytes with
  | case1 => rfl
  | case2 call bytes hbytes hresult =>
    have hpos := hwrites call bytes
    omega
  | case3 call bytes hbytes hresult rest ih =>
    rw [show rest = (true, _) from ih, List.take_append_drop]

section Complete

variable {args : Arguments} (hcomplete : endsInside false format = false)
  (hshort : (textOf args format).length < 2 ^ 31)

include hcomplete hshort

theorem vsnprintf_eq {null : Bool} (hnull : null = true → capacity = 0) (buffer : ℕ → Byte) :
    vsnprintf null buffer capacity format args =
      some (((textOf args format).length : ℤ), stored (textOf args format) capacity buffer) := by
  have hready : ¬(null = true ∧ capacity ≠ 0) := fun h => h.2 (hnull h.1)
  rw [vsnprintf, if_neg hready, scan_eq, Option.isSome_none, hcomplete]
  simp only [Bool.false_eq_true, if_false, Option.map_some]
  rw [foldl_appendChar, show fullText args none 0 format = textOf args format from rfl]
  dsimp only
  rw [if_neg (by omega)]
  congr 2
  funext k
  unfold stored
  by_cases hcapacity : capacity = 0
  · simp [hcapacity]
  rw [if_neg hcapacity, Function.update_apply]
  by_cases hk : k < min (textOf args format).length (capacity - 1)
  · rw [if_neg (by split <;> omega), if_pos (by omega), if_pos hk]
  · have hlast : k = (if (textOf args format).length < capacity then (textOf args format).length
        else capacity - 1) ↔ k = min (textOf args format).length (capacity - 1) := by
      split <;> omega
    simp only [hlast, hk, hcapacity, if_false, ne_eq, not_false_eq_true, and_true]
    rw [if_neg (c := _ ∧ _) (by omega)]

theorem vformatToFile_eq {env : Environment} (henv : env.Delivers) :
    vformatToFile env format args =
      some (if (textOf args format).length ≤ 1024 * 1024 then
        (((textOf args format).length : ℤ), textOf args format) else (-1, [])) := by
  unfold vformatToFile
  rw [henv.writable, henv.allocates, vsnprintf_eq hcomplete hshort (fun _ => rfl)]
  simp only [Bool.not_true, Bool.false_eq_true, if_false, Option.bind_some, and_false]
  by_cases hlong : (textOf args format).length ≤ 1024 * 1024
  · have hbytes : (List.range (textOf args format).length).map
        (stored (textOf args format) ((textOf args format).length + 1) env.memory) =
          textOf args format := by
      apply List.ext_getElem
      · simp
      · intro k hk hk'
        simp [stored, hk']
    rw [if_neg (by omega), if_pos hlong, vsnprintf_eq hcomplete hshort (by simp), Option.map_some,
      if_pos rfl, writeAll_eq henv.writes, Int.toNat_natCast, hbytes]
    rfl
  · rw [if_pos (by omega), if_neg hlong]

end Complete

theorem formatting_truncated (format : List Byte) (args : Arguments)
    (hcomplete : endsInside false format = false)
    (hshort : (textOf args format).length < 2 ^ 31) :
    (∀ null buffer capacity, (null = true → capacity = 0) →
        vsnprintf null buffer capacity format args = some (((textOf args format).length : ℤ),
          stored (textOf args format) capacity buffer)) ∧
      ∀ env, env.Delivers → vformatToFile env format args =
        some (if (textOf args format).length ≤ 1024 * 1024 then
          (((textOf args format).length : ℤ), textOf args format) else (-1, [])) := by
  constructor
  · intro null buffer capacity hnull
    exact vsnprintf_eq hcomplete hshort hnull buffer
  · intro env henv
    exact vformatToFile_eq hcomplete hshort henv

/-- The arguments hold 42, and every write takes one byte. -/
def sampleArguments : Arguments := ⟨fun _ => 42, fun _ => []⟩

def sampleEnvironment : Environment := ⟨true, true, fun _ => 0, fun _ _ => 1⟩

theorem sampleEnvironment_delivers : sampleEnvironment.Delivers := ⟨rfl, rfl, fun _ _ => one_pos⟩

theorem formatting_truncated_number :
    vsnprintf false (fun _ => 7) 2 [ascii '%', ascii 'd'] sampleArguments =
      some (2, stored [ascii '4', ascii '2'] 2 fun _ => 7) :=
  (formatting_truncated [ascii '%', ascii 'd'] sampleArguments rfl (by decide)).1 false _ 2 nofun

theorem plain_replicate (args : Arguments) (n : ℕ) :
    endsInside false (List.replicate n (ascii 'a')) = false ∧
      textOf args (List.replicate n (ascii 'a')) = List.replicate n (ascii 'a') := by
  induction n with
  | zero => exact ⟨rfl, rfl⟩
  | succ n ih => exact ⟨ih.1, congrArg (ascii 'a' :: ·) ih.2⟩

/-- A text of more than a mebibyte is not written at all. -/
theorem long_text_refused :
    ∃ format, endsInside false format = false ∧
      (textOf sampleArguments format).length = 2 ^ 20 + 1 ∧ sampleEnvironment.Delivers ∧
      vformatToFile sampleEnvironment format sampleArguments = some (-1, []) := by
  obtain ⟨hcomplete, htext⟩ := plain_replicate sampleArguments (2 ^ 20 + 1)
  have hlength := congrArg List.length htext
  rw [List.length_replicate] at hlength
  refine ⟨_, hcomplete, hlength, sampleEnvironment_delivers, ?_⟩
  rw [vformatToFile_eq hcomplete (by omega) sampleEnvironment_delivers, if_neg (by omega)]

end NPKernel.Formatting
