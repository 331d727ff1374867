import NPKernel.ElfValidation
import NPKernel.UserPages

/-!
# The initial stack of a new image

The strings of the arguments and of the environment are stored downward from the top
of the stack, then, below a multiple of 16, the words that user mode reads upward from
the initial stack pointer.
-/

namespace NPKernel.Vm

structure BuiltStack extends StagedExec where
  memory : Memory

/-- What `stage_exec_image` leaves when its checks of the images pass. -/
def stageStack (answers : Answers) (objects : Objects) (exec : ExecArguments) (pid : ℕ)
    (frames : Frames) : Option BuiltStack :=
  match vmmCreateAddressSpace frames with
  | (none, _) => none
  | (some tables, frames) =>
    match stageAll answers objects exec
        { frames := frames, process := emptyProcess pid tables } with
    | (none, _) => none
    | (some staged, mem) => some { staged with memory := mem }

variable {answers : Answers} {objects : Objects} {pid sp last address value word : ℕ}
  {frames : Frames} {steps : List StackStep} {strings argv envp : List (List (BitVec 8))}
  {addresses arguments environment : List ℕ} {mem next : Memory} {image : Image}
  {main : ElfLoadResult} {interpreter : Option ElfLoadResult} {auxiliary : List (ℕ × ℕ)}

theorem stageStack_eq_some {exec : ExecArguments} {built : BuiltStack}
    (h : stageStack answers objects exec pid frames = some built) :
    ∃ tables frames', vmmCreateAddressSpace frames = (some tables, frames') ∧
      stageAll answers objects exec { frames := frames', process := emptyProcess pid tables } =
        (some built.toStagedExec, built.memory) := by
  revert h
  fun_cases stageStack answers objects exec pid frames with
  | case3 tables frames' hcreate staged mem hstage =>
    intro h
    cases h
    exact ⟨tables, frames', hcreate, hstage⟩
  | _ => exact nofun

/-- The process that `stage_exec_image` makes has this stack. -/
theorem stageExecImage_stack {exec : ExecArguments} {process : UserProcess} {frames' : Frames}
    (h : stageExecImage answers objects exec pid frames = (some process, frames')) :
    ∃ built, stageStack answers objects exec pid frames = some built ∧
      built.memory = { frames := frames', process := process } := by
  obtain ⟨tables, created, staged, hcreate, hstage⟩ := stageExecImage_eq_some h
  exact ⟨{ staged with memory := _ }, by simp only [stageStack, hcreate, hstage], rfl⟩

/-! ## Writes from the top down -/

inductive Descending : List StackStep → ℕ → ℕ → Prop
  | nil (sp : ℕ) : Descending [] sp sp
  | cons {address sp last : ℕ} {bytes : List (BitVec 8)} {rest : List StackStep}
      (hroom : address + bytes.length ≤ sp) (hrest : Descending rest address last) :
      Descending (some (address, bytes) :: rest) sp last
  | lower {steps : List StackStep} {sp lower last : ℕ} (hle : lower ≤ sp)
      (hsteps : Descending steps lower last) : Descending steps sp last

theorem Descending.append {more : List StackStep} {middle : ℕ}
    (h : Descending steps sp middle) (hmore : Descending more middle last) :
    Descending (steps ++ more) sp last := by
  induction h with
  | nil sp => exact hmore
  | cons hroom _ ih => exact .cons hroom (ih hmore)
  | lower hle _ ih => exact .lower hle (ih hmore)

theorem layoutStrings_spec
    (h : layoutStrings strings sp = (steps, addresses, last)) (hnone : none ∉ steps) :
    Descending steps sp last ∧ addresses.length = strings.length ∧
      (∀ address ∈ addresses, address ≤ sp) ∧
      ∀ (i address : ℕ) (string : List (BitVec 8)), addresses[i]? = some address →
        strings[i]? = some string → some (address, string ++ [0]) ∈ steps := by
  induction strings generalizing sp steps addresses with
  | nil =>
    simp only [layoutStrings, Prod.mk.injEq] at h
    obtain ⟨rfl, rfl, rfl⟩ := h
    exact ⟨.nil sp, rfl, by simp, by simp⟩
  | cons string rest ih =>
    rw [layoutStrings] at h
    dsimp only at h
    split at h
    · cases h
      simp at hnone
    next hroom =>
      simp only [Bool.or_eq_true, decide_eq_true_eq, not_or, not_lt] at hroom
      generalize hrest : layoutStrings rest (sp - (string.length + 1)) = result at h
      obtain ⟨steps', addresses', last'⟩ := result
      cases h
      have hnone' : none ∉ steps' := fun hmem => hnone (List.mem_cons_of_mem _ hmem)
      obtain ⟨hdescending, hlength, hle, hwritten⟩ := ih hrest hnone'
      refine ⟨?_, by simp [hlength], ?_, ?_⟩
      · apply Descending.cons _ hdescending
        rw [List.length_append, List.length_singleton]
        omega
      · intro address haddress
        rcases List.mem_cons.1 haddress with rfl | haddress
        · omega
        · have := hle address haddress
          omega
      · intro i address other haddress hother
        cases i with
        | zero =>
          simp only [List.getElem?_cons_zero, Option.some.injEq] at haddress hother
          rw [← haddress, ← hother]
          exact List.mem_cons_self
        | succ i =>
          simp only [List.getElem?_cons_succ] at haddress hother
          exact List.mem_cons_of_mem _ (hwritten i address other haddress hother)

theorem getElem?_of_reverse {α : Type} {list : List α} {i : ℕ} {x : α}
    (h : list.reverse[i]? = some x) : list[list.length - 1 - i]? = some x := by
  have hlt := (List.getElem?_eq_some_iff.1 h).1
  rw [List.length_reverse] at hlt
  rwa [List.getElem?_reverse hlt] at h

theorem layoutStrings_reverse
    (h : layoutStrings strings.reverse sp = (steps, addresses, last)) (hnone : none ∉ steps) :
    Descending steps sp last ∧ addresses.length = strings.length ∧
      (∀ address ∈ addresses, address ≤ sp) ∧
      ∀ (i address : ℕ) (string : List (BitVec 8)), addresses.reverse[i]? = some address →
        strings[i]? = some string → some (address, string ++ [0]) ∈ steps := by
  obtain ⟨hdescending, hlength, hle, hwritten⟩ := layoutStrings_spec h hnone
  rw [List.length_reverse] at hlength
  refine ⟨hdescending, hlength, hle, ?_⟩
  intro i address string haddress hstring
  apply hwritten _ address string (getElem?_of_reverse haddress)
  have hlt : i < strings.length := (List.getElem?_eq_some_iff.1 hstring).1
  rw [List.getElem?_reverse (by omega), hlength,
    show strings.length - 1 - (strings.length - 1 - i) = i by omega]
  exact hstring

@[simp]
theorem wordBytes_length (word : ℕ) : (wordBytes word).length = 8 := by
  simp [wordBytes]

theorem layoutWords_spec {words : List ℕ}
    (h : layoutWords words sp = (steps, last)) (hnone : none ∉ steps) :
    Descending steps sp last ∧ last + 8 * words.length = sp ∧
      ∀ i word, words[i]? = some word →
        some (last + 8 * (words.length - 1 - i), wordBytes word) ∈ steps := by
  induction words generalizing sp steps with
  | nil =>
    simp only [layoutWords, Prod.mk.injEq] at h
    obtain ⟨rfl, rfl⟩ := h
    exact ⟨.nil sp, rfl, by simp⟩
  | cons word rest ih =>
    rw [layoutWords] at h
    split at h
    · cases h
      simp at hnone
    next hroom =>
      generalize hrest : layoutWords rest (sp - 8) = result at h
      obtain ⟨steps', last'⟩ := result
      simp only [Prod.mk.injEq] at h
      obtain ⟨rfl, rfl⟩ := h
      have hnone' : none ∉ steps' := fun hmem => hnone (List.mem_cons_of_mem _ hmem)
      obtain ⟨hdescending, hlast, hwritten⟩ := ih hrest hnone'
      refine ⟨?_, ?_, ?_⟩
      · apply Descending.cons _ hdescending
        rw [wordBytes_length]
        omega
      · rw [List.length_cons]
        omega
      · intro i other hother
        cases i with
        | zero =>
          simp only [List.getElem?_cons_zero, Option.some.injEq] at hother
          rw [← hother, List.length_cons,
            show last' + 8 * (rest.length + 1 - 1 - 0) = sp - 8 by omega]
          exact List.mem_cons_self
        | succ i =>
          simp only [List.getElem?_cons_succ] at hother
          have hmem := hwritten i other hother
          rw [List.length_cons, show rest.length + 1 - 1 - (i + 1) = rest.length - 1 - i by omega]
          exact List.mem_cons_of_mem _ hmem

theorem performSteps_none (h : performSteps answers objects steps mem = (true, next)) :
    none ∉ steps := by
  induction steps generalizing mem with
  | nil => simp
  | cons step rest ih =>
    cases step with
    | none => simp [performSteps] at h
    | some write =>
      rw [performSteps] at h
      split at h
      · simp at h
      · have hrest := ih h
        simpa using hrest

theorem performSteps_wrote (answers : Answers) (objects : Objects)
    (hdescending : Descending steps sp last) (h : Private mem) (hplain : Plain mem.process.vmas)
    (hdone : performSteps answers objects steps mem = (true, next)) :
    (∀ address bytes, some (address, bytes) ∈ steps → ∀ i byte, bytes[i]? = some byte →
      next.userByte (address + i) = some byte) ∧
    ∀ other byte, sp ≤ other → mem.userByte other = some byte →
      next.userByte other = some byte := by
  induction hdescending generalizing mem with
  | nil sp =>
    rw [performSteps] at hdone
    cases hdone
    exact ⟨by simp, fun _ _ _ hbyte => hbyte⟩
  | @cons address sp last bytes rest hroom hrest ih =>
    rw [performSteps] at hdone
    split at hdone
    · simp at hdone
    next middle hwrite =>
    obtain ⟨-, hwrote⟩ := userStackWrite_wrote answers objects h hplain hwrite
    have hplain' : Plain middle.process.vmas := by
      rw [hwrote.vmas]
      exact hplain
    obtain ⟨hwritten, hkept⟩ := ih hwrote.secluded hplain' hdone
    constructor
    · intro address' bytes' hmem i byte hi
      rcases List.mem_cons.1 hmem with heq | hmem
      · obtain ⟨rfl, rfl⟩ := Prod.mk.inj (Option.some.inj heq)
        exact hkept _ _ (by omega) (hwrote.inside i byte hi)
      · exact hwritten address' bytes' hmem i byte hi
    · intro other byte hother hbyte
      exact hkept _ _ (by omega) (hwrote.outside _ _ (Or.inr (by omega)) hbyte)
  | lower hle _ ih =>
    obtain ⟨hwritten, hkept⟩ := ih h hplain hdone
    exact ⟨hwritten, fun other byte hother => hkept other byte (by omega)⟩

/-! ## The layout -/

/-- The words of the initial stack in the order in which user mode reads them. -/
def stackWords (arguments environment : List ℕ) (auxiliary : List (ℕ × ℕ)) : List ℕ :=
  arguments.length :: arguments ++ 0 :: environment ++ 0 ::
    auxiliary.flatMap fun (kind, value) => [kind, value]

theorem reverse_pairs (auxiliary : List (ℕ × ℕ)) :
    (auxiliary.reverse.flatMap fun (kind, value) => [value, kind]).reverse =
      auxiliary.flatMap fun (kind, value) => [kind, value] := by
  induction auxiliary with
  | nil => rfl
  | cons pair rest ih => simp [List.flatMap_append, ih]

theorem length_pairs (auxiliary : List (ℕ × ℕ)) :
    (auxiliary.flatMap fun (kind, value) => [kind, value]).length = 2 * auxiliary.length := by
  induction auxiliary with
  | nil => rfl
  | cons pair rest ih =>
    simp only [List.flatMap_cons, List.length_append, List.length_cons, List.length_nil, ih]
    omega

theorem stackWords_length (arguments environment : List ℕ) (auxiliary : List (ℕ × ℕ)) :
    (stackWords arguments environment auxiliary).length =
      arguments.length + environment.length + 2 * auxiliary.length + 3 := by
  simp only [stackWords, List.length_append, List.length_cons, length_pairs]
  omega

section layout

variable {argv envp : List (List (BitVec 8))} {main : ElfLoadResult}
  {interpreter : Option ElfLoadResult} {top sp : ℕ} {steps : List StackStep}

/-- The writes of the initial stack: strings at addresses of their own, and the words
upward from the stack pointer. -/
structure StackLayout (argv envp : List (List (BitVec 8))) (auxiliary : List (ℕ × ℕ))
    (top sp : ℕ) (steps : List StackStep) (arguments environment : List ℕ) : Prop where
  descending : Descending steps top sp
  argc : arguments.length = argv.length
  envc : environment.length = envp.length
  below : ∀ address ∈ arguments ++ environment, address ≤ top
  rounded : (sp + 8 * (stackWords arguments environment auxiliary).length) % 16 = 0
  argvWritten : ∀ (i address : ℕ) (string : List (BitVec 8)), arguments[i]? = some address →
    argv[i]? = some string → some (address, string ++ [0]) ∈ steps
  envpWritten : ∀ (i address : ℕ) (string : List (BitVec 8)), environment[i]? = some address →
    envp[i]? = some string → some (address, string ++ [0]) ∈ steps
  wordsWritten : ∀ i word, (stackWords arguments environment auxiliary)[i]? = some word →
    some (sp + 8 * i, wordBytes word) ∈ steps

theorem Descending.le {sp last : ℕ} (h : Descending steps sp last) : last ≤ sp := by
  induction h with
  | nil => exact le_rfl
  | cons | lower => omega

theorem initialStack_layout
    (h : initialStack argv envp main interpreter top = (steps, sp)) (hnone : none ∉ steps) :
    ∃ arguments environment, StackLayout argv envp (auxiliaryVector main interpreter) top sp steps
      arguments environment := by
  unfold initialStack at h
  split at h
  · cases h
    simp at hnone
  generalize hargv : layoutStrings argv.reverse top = argvResult at h
  obtain ⟨argvSteps, arguments, middle⟩ := argvResult
  dsimp only at h
  generalize henvp : layoutStrings envp.reverse middle = envpResult at h
  obtain ⟨envpSteps, environment, bottom⟩ := envpResult
  dsimp only at h
  generalize hpushed : (auxiliaryVector main interpreter).reverse.flatMap
      (fun (kind, value) => [value, kind]) ++ [0] ++ environment ++ [0] ++ arguments ++
      [argv.length] = pushed at h
  generalize hwords : layoutWords pushed (bottom / 16 * 16) = wordsResult at h
  obtain ⟨wordSteps, last⟩ := wordsResult
  cases h
  simp only [List.mem_append, not_or] at hnone
  obtain ⟨hargvDown, hargc, hargvBelow, hargvWritten⟩ := layoutStrings_reverse hargv hnone.1.1
  obtain ⟨henvpDown, henvc, henvpBelow, henvpWritten⟩ := layoutStrings_reverse henvp hnone.1.2
  obtain ⟨hwordsDown, hlast, hwordsWritten⟩ := layoutWords_spec hwords hnone.2
  -- the pushes are the words from the last one to the first
  have hreverse : stackWords arguments.reverse environment.reverse
      (auxiliaryVector main interpreter) = pushed.reverse := by
    rw [← hpushed, stackWords, ← reverse_pairs]
    simp [hargc]
  have hlength : (stackWords arguments.reverse environment.reverse
      (auxiliaryVector main interpreter)).length = pushed.length := by
    rw [hreverse, List.length_reverse]
  refine ⟨arguments.reverse, environment.reverse, ?_⟩
  constructor
  · exact (hargvDown.append henvpDown).append (.lower (Nat.div_mul_le_self _ _) hwordsDown)
  · rw [List.length_reverse, hargc]
  · rw [List.length_reverse, henvc]
  · intro address haddress
    simp only [List.mem_append, List.mem_reverse] at haddress
    rcases haddress with haddress | haddress
    · exact hargvBelow address haddress
    · exact (henvpBelow address haddress).trans hargvDown.le
  · rw [hlength, hlast]
    omega
  · intro i address string haddress hstring
    apply List.mem_append_left
    exact List.mem_append_left _ (hargvWritten i address string haddress hstring)
  · intro i address string haddress hstring
    apply List.mem_append_left
    exact List.mem_append_right _ (henvpWritten i address string haddress hstring)
  · intro i word hword
    rw [hreverse] at hword
    have hlt : i < pushed.length := by
      have := (List.getElem?_eq_some_iff.1 hword).1
      rwa [List.length_reverse] at this
    have hwritten := hwordsWritten _ word (getElem?_of_reverse hword)
    rw [show pushed.length - 1 - (pushed.length - 1 - i) = i by omega] at hwritten
    exact List.mem_append_right _ hwritten

theorem buildInitialUserStack_eq_some {answers : Answers} {objects : Objects} {mem next : Memory}
    (h : buildInitialUserStack answers objects argv envp main interpreter top mem =
      (some sp, next)) :
    ∃ steps arguments environment,
      performSteps answers objects steps mem = (true, next) ∧
      StackLayout argv envp (auxiliaryVector main interpreter) top sp steps arguments
        environment := by
  unfold buildInitialUserStack at h
  generalize hinitial : initialStack argv envp main interpreter top = initial at h
  obtain ⟨steps, last⟩ := initial
  dsimp only at h
  split at h
  · simp at h
  next written hdone =>
  cases h
  obtain ⟨arguments, environment, hlayout⟩ :=
    initialStack_layout hinitial (performSteps_none hdone)
  exact ⟨steps, arguments, environment, hdone, hlayout⟩

end layout

/-! ## What user mode reads from the stack pointer on -/

def Memory.userField (mem : Memory) (address : ℕ) : ℕ → Option ℕ
  | 0 => some 0
  | count + 1 =>
    match mem.userByte address, mem.userField (address + 1) count with
    | some byte, some rest => some (byte.toNat + 256 * rest)
    | _, _ => none

def Memory.userWord (mem : Memory) (address : ℕ) : Option ℕ := mem.userField address 8

theorem Memory.userField_of_bytes {count : ℕ}
    (h : ∀ i < count, mem.userByte (address + i) = some (BitVec.ofNat 8 (value / 256 ^ i))) :
    mem.userField address count = some (value % 256 ^ count) := by
  induction count generalizing address value with
  | zero => simp [Memory.userField, Nat.mod_one]
  | succ count ih =>
    have hfirst := h 0 (Nat.succ_pos count)
    have hrest : mem.userField (address + 1) count = some (value / 256 % 256 ^ count) := by
      apply ih
      intro i hi
      have hbyte := h (i + 1) (Nat.succ_lt_succ hi)
      rwa [pow_succ', ← Nat.div_div_eq_div_mul, ← add_assoc, add_right_comm] at hbyte
    rw [Memory.userField, hrest]
    simp only [add_zero, pow_zero, Nat.div_one] at hfirst
    rw [hfirst]
    simp only [BitVec.toNat_ofNat, Option.some.injEq]
    rw [pow_succ' 256 count]
    exact Nat.mod_mul.symm

theorem Memory.userWord_of_bytes (hword : word < 2 ^ 64)
    (h : ∀ (i : ℕ) (byte : BitVec 8), (wordBytes word)[i]? = some byte →
      mem.userByte (address + i) = some byte) : mem.userWord address = some word := by
  have hfield : mem.userField address 8 = some (word % 256 ^ 8) := by
    apply Memory.userField_of_bytes
    intro i hi
    apply h
    simp [wordBytes, hi]
  have hmod : word % 256 ^ 8 = word := Nat.mod_eq_of_lt hword
  rw [Memory.userWord, hfield, hmod]

def Memory.UserString (mem : Memory) (address : ℕ) (string : List (BitVec 8)) : Prop :=
  ∀ (i : ℕ) (byte : BitVec 8), (string ++ [0])[i]? = some byte →
    mem.userByte (address + i) = some byte

/-- The initial stack: the words from the stack pointer on, and the strings. -/
structure InitialStack (mem : Memory) (sp : ℕ) (argv envp : List (List (BitVec 8)))
    (auxiliary : List (ℕ × ℕ)) (arguments environment : List ℕ) : Prop where
  argc : arguments.length = argv.length
  envc : environment.length = envp.length
  words : ∀ i word, (stackWords arguments environment auxiliary)[i]? = some word →
    mem.userWord (sp + 8 * i) = some word
  argvStrings : ∀ (i address : ℕ) (string : List (BitVec 8)), arguments[i]? = some address →
    argv[i]? = some string → mem.UserString address string
  envpStrings : ∀ (i address : ℕ) (string : List (BitVec 8)), environment[i]? = some address →
    envp[i]? = some string → mem.UserString address string

/-! ### The values of the auxiliary vector -/

structure ElfLoadResult.Fits (loaded : ElfLoadResult) : Prop where
  entry : loaded.entry < 2 ^ 64
  loadBias : loaded.loadBias < 2 ^ 64
  programHeader : loaded.programHeader < 2 ^ 64
  programHeaderCount : loaded.programHeaderCount < 2 ^ 64
  programHeaderSize : loaded.programHeaderSize < 2 ^ 64

theorem imageField_lt (image : Image) (offset count : ℕ) :
    imageField image offset count < 256 ^ count := by
  induction count generalizing offset with
  | zero => simp [imageField]
  | succ count ih =>
    rw [imageField, pow_succ]
    have hbyte : (imageByte image offset).toNat < 256 := (imageByte image offset).isLt
    have hrest := ih (offset + 1)
    omega

theorem lt_of_addOverflow {a b : ℕ} (ha : a < 2 ^ 64) (h : addOverflow a b = false) :
    a + b < 2 ^ 64 := by
  have hle := of_decide_eq_false h
  simp only [UINT64_MAX, not_lt] at hle
  omega

theorem programHeaders_vaddr {header : Elf64Header} {ph : Elf64ProgramHeader}
    (h : ph ∈ programHeaders image header) : ph.vaddr < 2 ^ 64 := by
  obtain ⟨i, -, rfl⟩ := List.mem_map.1 h
  exact imageField_lt image _ 8

theorem locateProgramHeader_lt (image : Image) (header : Elf64Header) (bias : ℕ) :
    locateProgramHeader header (programHeaders image header) bias < 2 ^ 64 := by
  unfold locateProgramHeader
  dsimp only
  split
  next ph hfound =>
    have hvaddr := programHeaders_vaddr (List.mem_of_find?_eq_some hfound)
    have hchecked := List.find?_some hfound
    simp only [Bool.and_eq_true, Bool.not_eq_true'] at hchecked
    exact lt_of_addOverflow hvaddr hchecked.2
  · split
    next ph hfound =>
      have hvaddr := programHeaders_vaddr (List.mem_of_find?_eq_some hfound)
      have hchecked := List.find?_some hfound
      simp only [Bool.and_eq_true, Bool.not_eq_true'] at hchecked
      exact lt_of_addOverflow (lt_of_addOverflow hvaddr hchecked.1.2) hchecked.2
    · decide

theorem elf64LoadInAddressSpace_fits {kmalloc : Bool} {bias : ℕ}
    {loaded : ElfLoadResult} (hbias : bias < 2 ^ 64)
    (h : elf64LoadInAddressSpace kmalloc image bias mem = (.ok loaded, next)) : loaded.Fits := by
  obtain ⟨hvalid, low, high, rfl⟩ := elf64LoadInAddressSpace_loaded h
  have hentry : addOverflow (elfHeader image).entry bias = false := by
    unfold elf64ValidateAtBias at hvalid
    cases hheader : headerValid image with
    | none => simp [hheader] at hvalid
    | some header =>
      obtain rfl := headerValid_eq_some hheader
      simp only [hheader] at hvalid
      split at hvalid
      · simp at hvalid
      next hchecked =>
        simp only [Bool.or_eq_true, not_or, Bool.not_eq_true] at hchecked
        exact hchecked.2
  have hsmall : ∀ offset, imageField image offset 2 < 2 ^ 64 := by
    intro offset
    exact lt_trans (imageField_lt image offset 2) (by decide)
  constructor
  · exact lt_of_addOverflow (imageField_lt image 24 8) hentry
  · exact hbias
  · exact locateProgramHeader_lt image _ bias
  · exact hsmall 56
  · exact hsmall 54

theorem auxiliaryVector_lt
    (hmain : main.Fits) (hinterpreter : ∀ loaded, interpreter = some loaded → loaded.Fits)
    {kind : ℕ} (h : (kind, value) ∈ auxiliaryVector main interpreter) :
    kind < 2 ^ 64 ∧ value < 2 ^ 64 := by
  simp only [auxiliaryVector, List.mem_append, List.mem_cons, List.not_mem_nil, or_false,
    Prod.mk.injEq] at h
  rcases h with ((h | ⟨rfl, rfl⟩) | h) | ⟨rfl, rfl⟩ | ⟨rfl, rfl⟩
  · split at h
    · simp only [List.mem_cons, Prod.mk.injEq, List.not_mem_nil, or_false] at h
      rcases h with ⟨rfl, rfl⟩ | ⟨rfl, rfl⟩ | ⟨rfl, rfl⟩
      · exact ⟨by decide, hmain.programHeader⟩
      · exact ⟨by decide, hmain.programHeaderSize⟩
      · exact ⟨by decide, hmain.programHeaderCount⟩
    · simp at h
  · exact ⟨by decide, by decide⟩
  · cases interpreter with
    | none => simp at h
    | some loaded =>
      dsimp only at h
      split at h
      · obtain ⟨rfl, rfl⟩ := Prod.mk.inj (List.mem_singleton.1 h)
        exact ⟨by decide, (hinterpreter loaded rfl).loadBias⟩
      · simp at h
  · exact ⟨by decide, hmain.entry⟩
  · exact ⟨by decide, by decide⟩

theorem stackWords_lt (hcount : arguments.length < 2 ^ 64)
    (haddresses : ∀ address ∈ arguments ++ environment, address < 2 ^ 64)
    (hpairs : ∀ kind value, (kind, value) ∈ auxiliary → kind < 2 ^ 64 ∧ value < 2 ^ 64)
    (h : word ∈ stackWords arguments environment auxiliary) : word < 2 ^ 64 := by
  simp only [stackWords, List.mem_append, List.mem_cons, List.mem_flatMap, List.not_mem_nil,
    or_false, Prod.exists, List.cons_append] at h
  rcases h with rfl | (h | rfl | h) | rfl | ⟨kind, value, hpair, rfl | rfl⟩
  · exact hcount
  · exact haddresses word (List.mem_append_left _ h)
  · decide
  · exact haddresses word (List.mem_append_right _ h)
  · decide
  · exact (hpairs _ _ hpair).1
  · exact (hpairs _ _ hpair).2

/-! ### The memory on which the stack is built -/

theorem create_private {frames' : Frames} {tables : PageTree}
    (h : vmmCreateAddressSpace frames = (some tables, frames')) :
    Private { frames := frames', process := emptyProcess pid tables } := by
  have hempty : ∀ path entry, tables.leafAt path ≠ some entry := by
    intro path entry
    unfold vmmCreateAddressSpace at h
    split at h
    · simp at h
    · obtain ⟨htables, -⟩ := Prod.mk.inj h
      rw [← Option.some.inj htables]
      cases path <;> simp
  constructor
  · intro path entry hpath
    exact absurd hpath (hempty path entry)
  · intro path other entry entry' hpath
    exact absurd hpath (hempty path entry)

theorem Layout.OfSegments.plain {layout : Layout} (h : layout.OfSegments) : Plain layout.vmas := by
  intro vma hvma
  obtain ⟨hflags, hbacking⟩ := h.segments vma hvma
  refine ⟨?_, hbacking⟩
  rw [hflags]
  decide

section prepared

variable {answers : Answers} {mem next : Memory}

theorem stageImage_prepared {requests : ℕ} {image : Image} {bias : ℕ} {loaded : ElfLoadResult}
    (hbias : bias < 2 ^ 64) (h : Private mem) (hsegments : mem.layout.OfSegments)
    (hstage : stageImage answers requests image bias mem = (some loaded, next)) :
    loaded.Fits ∧ Private next ∧ next.layout.OfSegments := by
  have hareas := hsegments.afterChanges (stageImage_changes answers requests image bias mem)
  rw [hstage] at hareas
  revert hstage
  fun_cases stageImage answers requests image bias mem with
  | case3 loaded' mapped hload registered hregister =>
    rintro ⟨⟩
    have hchanges : PageChanges ⟨fun _ => none, fun _ => False⟩ (fun _ _ => True) mem
        (elf64LoadInAddressSpace (answers.kmalloc requests) image bias mem).2 :=
      elf64LoadInAddressSpace_changes ..
    rw [hload] at hchanges
    have hmapped : Private mapped := h.afterChanges (fun _ => rfl) (fun _ hfalse => hfalse) hchanges
    refine ⟨elf64LoadInAddressSpace_fits hbias hload, ?_, hareas⟩
    obtain ⟨⟨vmas, rfl⟩, -⟩ := registerExecVmas_added hregister
    exact ⟨hmapped.used, hmapped.apart⟩
  | _ => rintro ⟨⟩

/-- The stack was written to private pages of plain areas, and what follows leaves the
pages as they are. -/
inductive StackBuilt (answers : Answers) (objects : Objects) (exec : ExecArguments)
    (staged : StagedExec) (next : Memory) : Prop
  | intro (start written : Memory) (heapStart : ℕ) (hprivate : Private start)
      (hplain : Plain start.process.vmas)
      (hbuild : buildInitialUserStack answers objects exec.argv exec.envp staged.main
        staged.interpreter NPK_USER_STACK_TOP start = (some staged.stackPointer, written))
      (hnext : next = { written with process := written.process.withBreak heapStart })

variable {objects : Objects} {exec : ExecArguments} {staged : StagedExec}

theorem stageHeapAndStack_built {main : ElfLoadResult} {interpreter : Option ElfLoadResult}
    (h : Private mem) (hsegments : mem.layout.OfSegments)
    (hstage : stageHeapAndStack answers objects exec main interpreter mem = (some staged, next)) :
    staged.main = main ∧ staged.interpreter = interpreter ∧
      StackBuilt answers objects exec staged next := by
  obtain ⟨hmain, hinterpreter, start, written, -, -, hbuild, hnext⟩ :=
    stageHeapAndStack_eq_some hstage
  rw [← hmain, ← hinterpreter] at hbuild
  refine ⟨hmain, hinterpreter, .intro _ written start ?_ ?_ hbuild hnext⟩
  · exact ⟨h.used, h.apart⟩
  intro vma hvma
  rcases List.mem_cons.1 hvma with rfl | hvma
  · exact ⟨by simp only [heapArea, Vma.plain]; decide, rfl⟩
  · exact hsegments.plain vma hvma

theorem stageAll_built (h : Private mem) (hsegments : mem.layout.OfSegments)
    (hstage : stageAll answers objects exec mem = (some staged, next)) :
    staged.main.Fits ∧ (∀ loaded, staged.interpreter = some loaded → loaded.Fits) ∧
      StackBuilt answers objects exec staged next := by
  have hbias : defaultBias (elfHeader exec.image) < 2 ^ 64 := by
    unfold defaultBias
    split <;> decide
  unfold stageAll at hstage
  split at hstage
  · simp at hstage
  next main mem' hmain =>
  obtain ⟨hfits, hprivate, hareas⟩ := stageImage_prepared hbias h hsegments hmain
  split at hstage
  · obtain ⟨rfl, hnone, hbuilt⟩ := stageHeapAndStack_built hprivate hareas hstage
    exact ⟨hfits, by simp [hnone], hbuilt⟩
  split at hstage
  · simp at hstage
  next loaded mem'' hloaded =>
  obtain ⟨hfits', hprivate', hareas'⟩ :=
    stageImage_prepared (by decide) hprivate hareas hloaded
  obtain ⟨rfl, hsome, hbuilt⟩ := stageHeapAndStack_built hprivate' hareas' hstage
  refine ⟨hfits, ?_, hbuilt⟩
  intro other hother
  rwa [← Option.some.inj (hsome.symm.trans hother)]

end prepared

theorem stageStack_built {exec : ExecArguments} {built : BuiltStack}
    (h : stageStack answers objects exec pid frames = some built) :
    built.main.Fits ∧ (∀ loaded, built.interpreter = some loaded → loaded.Fits) ∧
      StackBuilt answers objects exec built.toStagedExec built.memory := by
  obtain ⟨tables, frames', hcreate, hstage⟩ := stageStack_eq_some h
  exact stageAll_built (create_private hcreate) (emptyProcess_ofSegments _ _ _) hstage

theorem InitialStack.of_layout (hprivate : Private mem) (hplain : Plain mem.process.vmas)
    (hpairs : ∀ kind value, (kind, value) ∈ auxiliary → kind < 2 ^ 64 ∧ value < 2 ^ 64)
    (hargc : argv.length ≤ 64) (hdone : performSteps answers objects steps mem = (true, next))
    (h : StackLayout argv envp auxiliary NPK_USER_STACK_TOP sp steps arguments environment) :
    InitialStack next sp argv envp auxiliary arguments environment := by
  obtain ⟨hwritten, -⟩ := performSteps_wrote answers objects h.descending hprivate hplain hdone
  have hcount : arguments.length < 2 ^ 64 := by
    rw [h.argc]
    omega
  have haddresses : ∀ address ∈ arguments ++ environment, address < 2 ^ 64 := by
    intro address haddress
    exact (h.below address haddress).trans_lt (by decide)
  constructor
  · exact h.argc
  · exact h.envc
  · intro i word hword
    apply Memory.userWord_of_bytes
    · exact stackWords_lt hcount haddresses hpairs (List.mem_of_getElem? hword)
    · intro j byte hbyte
      exact hwritten _ _ (h.wordsWritten i word hword) j byte hbyte
  · intro i address string haddress hstring j byte hbyte
    exact hwritten _ _ (h.argvWritten i address string haddress hstring) j byte hbyte
  · intro i address string haddress hstring j byte hbyte
    exact hwritten _ _ (h.envpWritten i address string haddress hstring) j byte hbyte

theorem buildInitialUserStack_argc {top : ℕ}
    (h : buildInitialUserStack answers objects argv envp main interpreter top mem =
      (some sp, next)) :
    argv.length ≤ 64 := by
  by_contra hlong
  have hsteps : initialStack argv envp main interpreter top = ([none], top) := by
    rw [initialStack, if_pos]
    simp only [Bool.or_eq_true, decide_eq_true_eq]
    omega
  simp [buildInitialUserStack, hsteps, performSteps] at h

/-- The stack of every image that the kernel stages, with or without an interpreter:
upward from the stack pointer user mode reads the number of arguments, the pointers to
them, a zero, the pointers to the environment, a zero and the auxiliary pairs, and every
pointer addresses a copy of its string. -/
theorem initial_stack_contents (answers : Answers) (objects : Objects) (exec : ExecArguments)
    (pid : ℕ) (frames : Frames) (built : BuiltStack)
    (h : stageStack answers objects exec pid frames = some built) :
    (auxiliaryVector built.main built.interpreter).getLast? = some (0, 0) ∧
      ∃ arguments environment, InitialStack built.memory built.stackPointer exec.argv exec.envp
        (auxiliaryVector built.main built.interpreter) arguments environment := by
  obtain ⟨hmain, hinterpreter, start, written, heapStart, hprivate, hplain, hbuild, hnext⟩ :=
    stageStack_built h
  obtain ⟨steps, arguments, environment, hdone, hlayout⟩ := buildInitialUserStack_eq_some hbuild
  constructor
  · unfold auxiliaryVector
    rw [List.getLast?_append]
    rfl
  · refine ⟨arguments, environment, ?_⟩
    have hstack := InitialStack.of_layout hprivate hplain
      (fun kind value => auxiliaryVector_lt hmain hinterpreter) (buildInitialUserStack_argc hbuild)
      hdone hlayout
    rw [hnext]
    exact ⟨hstack.argc, hstack.envc, hstack.words, hstack.argvStrings, hstack.envpStrings⟩

theorem stageStack_sample :
    (stageStack sampleAnswers (fun _ => none)
      { sampleExec with argv := [[0x61]], envp := [[0x62, 0x3d]] } 2 sampleBoot.frames).map
        (·.stackPointer) = some (NPK_USER_STACK_TOP - 16 - 8 * 17) := by
  decide +kernel

theorem initial_stack_contents_sample :
    ∃ built, stageStack sampleAnswers (fun _ => none)
        { sampleExec with argv := [[0x61]], envp := [[0x62, 0x3d]] } 2 sampleBoot.frames =
          some built ∧
      ∃ arguments environment, InitialStack built.memory built.stackPointer [[0x61]]
        [[0x62, 0x3d]] (auxiliaryVector built.main built.interpreter) arguments environment := by
  obtain ⟨built, hstack, -⟩ := Option.map_eq_some_iff.1 stageStack_sample
  exact ⟨built, hstack, (initial_stack_contents _ _ _ _ _ built hstack).2⟩

/-! ## Alignment of the stack pointer -/

/-- The stack pointer is rounded before an odd number of words besides the pointers to
the strings, so it is aligned if and only if there is an odd number of strings. -/
theorem initial_stack_aligned_iff (answers : Answers) (objects : Objects)
    (argv envp : List (List (BitVec 8))) (main : ElfLoadResult)
    (interpreter : Option ElfLoadResult) (top sp : ℕ) (mem next : Memory)
    (h : buildInitialUserStack answers objects argv envp main interpreter top mem =
      (some sp, next)) :
    sp % 16 = 0 ↔ (argv.length + envp.length) % 2 = 1 := by
  obtain ⟨steps, arguments, environment, -, hlayout⟩ := buildInitialUserStack_eq_some h
  have hrounded := hlayout.rounded
  rw [stackWords_length, hlayout.argc, hlayout.envc] at hrounded
  omega

theorem initial_stack_misaligned :
    ¬∀ (answers : Answers) (objects : Objects) (exec : ExecArguments) (pid : ℕ)
      (frames : Frames) (built : BuiltStack),
      stageStack answers objects exec pid frames = some built → built.stackPointer % 16 = 0 := by
  intro hall
  obtain ⟨built, hstack, hsp⟩ := Option.map_eq_some_iff.1 stageStack_sample
  have haligned := hall _ _ _ _ _ built hstack
  rw [hsp] at haligned
  exact absurd haligned (by decide)

theorem initial_stack_aligned_iff_sample :
    ∃ (main : ElfLoadResult) (interpreter : Option ElfLoadResult) (start next : Memory) (sp : ℕ),
      buildInitialUserStack sampleAnswers (fun _ => none) [[0x61]] [[0x62, 0x3d]] main interpreter
        NPK_USER_STACK_TOP start = (some sp, next) ∧ ¬sp % 16 = 0 := by
  obtain ⟨built, hstack, -⟩ := Option.map_eq_some_iff.1 stageStack_sample
  obtain ⟨-, -, start, written, heapStart, -, -, hbuild, -⟩ := stageStack_built hstack
  refine ⟨_, _, start, _, _, hbuild, ?_⟩
  rw [initial_stack_aligned_iff _ _ _ _ _ _ _ _ _ _ hbuild]
  decide

end NPKernel.Vm
