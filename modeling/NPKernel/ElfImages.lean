import NPKernel.VirtualMemory

/-!
# Loading executables

The kernel checks an ELF image, maps its segments into a new address space,
registers an area for each of them, reserves the heap and builds the initial
stack.  Everything is undone when one of these steps fails.
-/

namespace NPKernel.Vm

open RadixTables

def ET_EXEC : ℕ := 2
def ET_DYN : ℕ := 3
def PT_LOAD : ℕ := 1
def PT_DYNAMIC : ℕ := 2
def PT_INTERP : ℕ := 3
def PT_PHDR : ℕ := 6
def PF_X : Word := 1
def PF_W : Word := 2
def PF_R : Word := 4
def NPK_MAX_PHNUM : ℕ := 64
def NPK_MAX_ELF_PAGES : ℕ := 65536
def NPK_ELF_INTERP_MAX : ℕ := 256
def ELF_DYNAMIC_ENTRY_SIZE : ℕ := 16
def NPK_USER_DYN_BASE : ℕ := 0x4000000000
def NPK_USER_INTERP_BASE : ℕ := 0x5000000000
def NPK_USER_STACK_TOP : ℕ := 0x7ffffff00000
def NPK_USER_STACK_PAGES : ℕ := 32

def ELF_EINVAL : ℤ := -22
def ELF_EFAULT : ℤ := -14
def ELF_ENOMEM : ℤ := -12
def ELF_ENOEXEC : ℤ := -8

/-! ## Headers -/

abbrev Image := List (BitVec 8)

def imageByte (image : Image) (offset : ℕ) : BitVec 8 := image.getD offset 0

def imageField (image : Image) (offset : ℕ) : ℕ → ℕ
  | 0 => 0
  | count + 1 => (imageByte image offset).toNat + 256 * imageField image (offset + 1) count

structure Elf64Header where
  kind : ℕ
  machine : ℕ
  version : ℕ
  entry : ℕ
  phoff : ℕ
  ehsize : ℕ
  phentsize : ℕ
  phnum : ℕ

structure Elf64ProgramHeader where
  kind : ℕ
  flags : Word
  offset : ℕ
  vaddr : ℕ
  filesz : ℕ
  memsz : ℕ
  align : ℕ

def elfHeader (image : Image) : Elf64Header :=
  { kind := imageField image 16 2, machine := imageField image 18 2
    version := imageField image 20 4, entry := imageField image 24 8
    phoff := imageField image 32 8, ehsize := imageField image 52 2
    phentsize := imageField image 54 2, phnum := imageField image 56 2 }

def elfProgramHeader (image : Image) (start : ℕ) : Elf64ProgramHeader :=
  { kind := imageField image start 4, flags := BitVec.ofNat 64 (imageField image (start + 4) 4)
    offset := imageField image (start + 8) 8, vaddr := imageField image (start + 16) 8
    filesz := imageField image (start + 32) 8, memsz := imageField image (start + 40) 8
    align := imageField image (start + 48) 8 }

def programHeaders (image : Image) (header : Elf64Header) : List Elf64ProgramHeader :=
  (List.range header.phnum).map fun i => elfProgramHeader image (header.phoff + i * 56)

def elfIdent : List (BitVec 8) := [0x7f, 0x45, 0x4c, 0x46, 2, 1, 1]

def headerValid (image : Image) : Option Elf64Header :=
  let header := elfHeader image
  if image.length < 64 || image.take 7 != elfIdent then none
  else if header.kind ≠ ET_EXEC && header.kind ≠ ET_DYN then none
  else if header.machine ≠ 62 || header.version ≠ 1 || header.ehsize ≠ 64 ||
      header.phentsize ≠ 56 || header.phnum = 0 || NPK_MAX_PHNUM < header.phnum then none
  else if addOverflow header.phoff (header.phnum * header.phentsize) ||
      image.length < header.phoff ||
      image.length - header.phoff < header.phnum * header.phentsize then none
  else some header

/-! ## Segments -/

structure SegmentRange where
  start : ℕ
  stop : ℕ
  pageStart : ℕ
  pageEnd : ℕ

def userSpan (start length bias : ℕ) : Option ℕ :=
  if addOverflow start bias then none
  else
    let absolute := start + bias
    if absolute < NPK_USER_MIN || NPK_USER_MAX ≤ absolute || length = 0 ||
        addOverflow absolute length then none
    else if NPK_USER_MAX < absolute + length then none
    else some (absolute + length)

def isPowerOfTwo (value : ℕ) : Bool := value ≠ 0 && (value &&& (value - 1)) == 0

def segmentRangeValid (ph : Elf64ProgramHeader) (imageSize bias : ℕ) : Option SegmentRange :=
  if ph.memsz < ph.filesz || ph.memsz = 0 then none
  else if imageSize < ph.offset || imageSize - ph.offset < ph.filesz then none
  else if 1 < ph.align && (!isPowerOfTwo ph.align ||
      ph.vaddr % ph.align ≠ ph.offset % ph.align) then none
  else if hasBit ph.flags PF_W && hasBit ph.flags PF_X then none
  else
    match userSpan ph.vaddr ph.memsz bias with
    | none => none
    | some stop =>
      let start := ph.vaddr + bias
      match pageAlignUp stop with
      | none => none
      | some pageEnd =>
        if start < NPK_USER_MIN || NPK_USER_MAX < pageEnd || pageEnd ≤ pageAlign start then
          none
        else
          some { start := start, stop := stop, pageStart := pageAlign start
                 pageEnd := pageEnd }

def loadSegmentsOverlap (earlier : List Elf64ProgramHeader) (imageSize bias : ℕ)
    (current : SegmentRange) : Bool :=
  earlier.any fun ph =>
    ph.kind == PT_LOAD &&
      match segmentRangeValid ph imageSize bias with
      | none => true
      | some range =>
        decide (current.pageStart < range.pageEnd) && decide (range.start < current.pageEnd)

/-! ## Validation -/

def dynamicEntriesValid (image : Image) : ℕ → ℕ → Bool
  | 0, _ => false
  | count + 1, offset =>
    let tag := imageField image offset 8
    if tag = 0 then true
    else if 2 ^ 63 ≤ tag then false
    else dynamicEntriesValid image count (offset + ELF_DYNAMIC_ENTRY_SIZE)

def dynamicTableValid (image : Image) (ph : Elf64ProgramHeader) : Bool :=
  if ph.filesz = 0 || ph.memsz < ph.filesz || ph.filesz % ELF_DYNAMIC_ENTRY_SIZE ≠ 0 ||
      image.length < ph.offset || image.length - ph.offset < ph.filesz then false
  else dynamicEntriesValid image (ph.filesz / ELF_DYNAMIC_ENTRY_SIZE) ph.offset

/-- The loop of `interpreter_field_valid` from position `i`, with `count` positions
left and the length of a component computed modulo the word size. -/
def interpreterComponents (image : Image) (offset filesz : ℕ) : ℕ → ℕ → ℕ → Bool
  | 0, _, _ => true
  | count + 1, i, componentStart =>
    let value := (imageByte image (offset + i)).toNat
    if value = 0 || value < 0x20 || value = 0x7f then false
    else if value ≠ 0x2f && i + 1 ≠ filesz - 1 then
      interpreterComponents image offset filesz count (i + 1) componentStart
    else
      let length := (i + 2 ^ 64 - componentStart) % 2 ^ 64
      if length = 2 && imageByte image (offset + componentStart) == 0x2e &&
          imageByte image (offset + componentStart + 1) == 0x2e then false
      else interpreterComponents image offset filesz count (i + 1) (i + 1)

def interpreterFieldValid (image : Image) (ph : Elf64ProgramHeader) : Bool :=
  if ph.filesz = 0 || ph.memsz < ph.filesz || NPK_ELF_INTERP_MAX < ph.filesz ||
      image.length < ph.offset || image.length - ph.offset < ph.filesz then false
  else if imageByte image (ph.offset + ph.filesz - 1) ≠ 0 ||
      imageByte image ph.offset ≠ 0x2f then false
  else interpreterComponents image ph.offset ph.filesz (ph.filesz - 1) 0 1

/-- The accumulators of the loop of `elf64_validate_at_bias`. -/
structure Validation where
  earlier : List Elf64ProgramHeader := []
  pageCount : ℕ := 0
  loaded : ℕ := 0
  entryValid : Bool := false
  seenInterp : Bool := false
  seenDynamic : Bool := false

def validateProgram (image : Image) (bias entry : ℕ) (seen : Validation)
    (ph : Elf64ProgramHeader) : Option Validation :=
  let seen' := { seen with earlier := seen.earlier ++ [ph] }
  if ph.kind = PT_INTERP then
    if seen.seenInterp || !interpreterFieldValid image ph then none
    else some { seen' with seenInterp := true }
  else if ph.kind = PT_DYNAMIC then
    if seen.seenDynamic || !dynamicTableValid image ph then none
    else some { seen' with seenDynamic := true }
  else if ph.kind ≠ PT_LOAD then some seen'
  else
    match segmentRangeValid ph image.length bias with
    | none => none
    | some range =>
      if loadSegmentsOverlap seen.earlier image.length bias range then none
      else if NPK_MAX_ELF_PAGES * NPK_PAGE_SIZE - seen.pageCount * NPK_PAGE_SIZE <
          range.pageEnd - range.pageStart then none
      else
        some { seen' with
               pageCount :=
                 seen.pageCount + (range.pageEnd - range.pageStart) / NPK_PAGE_SIZE
               loaded := seen.loaded + 1
               entryValid := seen.entryValid ||
                 (decide (range.start ≤ entry) && decide (entry < range.stop) &&
                   hasBit ph.flags PF_X) }

def elf64ValidateAtBias (image : Image) (bias : ℕ) : Bool :=
  match headerValid image with
  | none => false
  | some header =>
    if bias % NPK_PAGE_SIZE ≠ 0 || (header.kind = ET_EXEC && bias ≠ 0) ||
        (header.kind = ET_DYN && bias < NPK_USER_DYN_BASE) ||
        addOverflow header.entry bias then false
    else
      match (programHeaders image header).foldlM
          (validateProgram image bias (header.entry + bias)) {} with
      | none => false
      | some seen =>
        seen.loaded ≠ 0 && seen.pageCount ≠ 0 && seen.pageCount ≤ NPK_MAX_ELF_PAGES &&
          seen.entryValid

def defaultBias (header : Elf64Header) : ℕ :=
  if header.kind = ET_DYN then NPK_USER_DYN_BASE else 0

def elf64Validate (image : Image) : Bool :=
  match headerValid image with
  | none => false
  | some header => elf64ValidateAtBias image (defaultBias header)

/-- The interpreter's path, empty if there is none; `none` if it is refused. -/
def elf64GetInterpreter (image : Image) (capacity : ℕ) : Option (List (BitVec 8)) :=
  match headerValid image with
  | none => none
  | some header =>
    if capacity < 2 then none
    else
      match (programHeaders image header).find? fun ph => ph.kind == PT_INTERP with
      | none => some []
      | some ph =>
        if !interpreterFieldValid image ph || capacity ≤ ph.filesz then none
        else some ((image.drop ph.offset).take (ph.filesz - 1))

/-! ## Mapping the segments -/

structure ElfLoadResult where
  entry : ℕ
  imageBase : ℕ
  imageEnd : ℕ
  loadBias : ℕ
  programHeader : ℕ
  programHeaderCount : ℕ
  programHeaderSize : ℕ

def locateProgramHeader (header : Elf64Header) (programs : List Elf64ProgramHeader)
    (bias : ℕ) : ℕ :=
  let tableSize := header.phnum * header.phentsize
  match programs.find? fun ph => ph.kind == PT_PHDR && !addOverflow ph.vaddr bias with
  | some ph => ph.vaddr + bias
  | none =>
    match programs.find? fun ph =>
        ph.kind == PT_LOAD && decide (ph.offset ≤ header.phoff) &&
          decide (tableSize ≤ ph.filesz) &&
          decide (header.phoff - ph.offset ≤ ph.filesz - tableSize) &&
          !addOverflow ph.vaddr (header.phoff - ph.offset) &&
          !addOverflow (ph.vaddr + (header.phoff - ph.offset)) bias with
    | some ph => ph.vaddr + (header.phoff - ph.offset) + bias
    | none => 0

def segmentFlags (ph : Elf64ProgramHeader) : PageFlags :=
  { user := true, write := hasBit ph.flags PF_W, nx := !hasBit ph.flags PF_X }

/-- The contents of one page of a segment, unless its file range is exceeded. -/
def segmentPage (image : Image) (ph : Elf64ProgramHeader) (bias start va : ℕ) :
    Option (ℕ → BitVec 8) :=
  let fileStart := ph.vaddr + bias
  let fileEnd := fileStart + ph.filesz
  let copyStart := max start va
  let copyEnd := min fileEnd (va + NPK_PAGE_SIZE)
  if copyStart < copyEnd then
    let delta := copyStart - fileStart
    if ph.filesz < delta || ph.filesz - delta < copyEnd - copyStart then none
    else
      some fun offset =>
        if copyStart ≤ va + offset ∧ va + offset < copyEnd then
          imageByte image (ph.offset + delta + (va + offset - copyStart))
        else 0
  else some fun _ => 0

def loadPages (image : Image) (ph : Elf64ProgramHeader) (bias start limit : ℕ) :
    ℕ → ℕ → List ℕ → Memory → ℤ × List ℕ × Memory
  | 0, _, records, mem => (0, records, mem)
  | count + 1, va, records, mem =>
    match allocFrame mem.frames with
    | (none, frames) => (ELF_ENOMEM, records, mem.setFrames frames)
    | (some physical, frames) =>
      let mem := mem.setFrames frames
      if limit ≤ records.length then
        (ELF_ENOMEM, records, mem.setFrames (freeFrame mem.frames physical))
      else
        match mem.mapPage va physical (segmentFlags ph) with
        | (false, mem) =>
          (ELF_ENOMEM, records, mem.setFrames (freeFrame mem.frames physical))
        | (true, mem) =>
          match segmentPage image ph bias start va with
          | none =>
            (ELF_EFAULT, records, mem.setFrames (mem.frames.store physical fun _ => 0))
          | some contents =>
            loadPages image ph bias start limit count (va + NPK_PAGE_SIZE)
              (va :: records) (mem.setFrames (mem.frames.store physical contents))

def loadSegments (image : Image) (bias limit : ℕ) :
    List Elf64ProgramHeader → List ℕ → Memory → ℤ × List ℕ × Memory
  | [], records, mem => (0, records, mem)
  | ph :: rest, records, mem =>
    if ph.kind ≠ PT_LOAD then loadSegments image bias limit rest records mem
    else
      match segmentRangeValid ph image.length bias with
      | none => (ELF_ENOEXEC, records, mem)
      | some range =>
        match loadPages image ph bias range.start limit
            (pagesBetween range.pageStart range.pageEnd) range.pageStart records mem with
        | (error, records, mem) =>
          if error ≠ 0 then (error, records, mem)
          else loadSegments image bias limit rest records mem

/-- The extent of the loadable segments, the number of their pages, and whether the
entry point lies in an executable one. -/
def segmentExtent (imageSize bias entry : ℕ) (programs : List Elf64ProgramHeader) :
    Option (ℕ × ℕ × ℕ × Bool) :=
  programs.foldlM (fun (low, high, pages, entryValid) ph =>
      if ph.kind ≠ PT_LOAD then some (low, high, pages, entryValid)
      else
        (segmentRangeValid ph imageSize bias).map fun range =>
          (min range.start low, max range.stop high,
            pages + (range.pageEnd - range.pageStart) / NPK_PAGE_SIZE,
            entryValid || (decide (range.start ≤ entry) && decide (entry < range.stop) &&
              hasBit ph.flags PF_X)))
    (UINT64_MAX, 0, 0, false)

def elf64LoadInAddressSpace (kmalloc : Bool) (image : Image) (bias : ℕ) (mem : Memory) :
    Except ℤ ElfLoadResult × Memory :=
  match headerValid image with
  | none => (.error ELF_EINVAL, mem)
  | some header =>
    if bias % NPK_PAGE_SIZE ≠ 0 || (header.kind = ET_EXEC && bias ≠ 0) ||
        (header.kind = ET_DYN && bias < NPK_USER_DYN_BASE) then (.error ELF_EINVAL, mem)
    else if !elf64ValidateAtBias image bias then (.error ELF_ENOEXEC, mem)
    else
      let programs := programHeaders image header
      match segmentExtent image.length bias (header.entry + bias) programs with
      | none => (.error ELF_ENOEXEC, mem)
      | some (low, high, pages, entryValid) =>
        if !entryValid || pages = 0 || NPK_MAX_ELF_PAGES < pages then
          (.error ELF_ENOEXEC, mem)
        else if !kmalloc then (.error ELF_ENOMEM, mem)
        else
          match loadSegments image bias pages programs [] mem with
          | (error, records, mem) =>
            if error ≠ 0 then
              (.error error, records.foldl unmapPage mem)
            else
              (.ok
                { entry := header.entry + bias, imageBase := low, imageEnd := high
                  loadBias := bias
                  programHeader := locateProgramHeader header programs bias
                  programHeaderCount := header.phnum
                  programHeaderSize := header.phentsize }, mem)

/-! ## Areas, heap and stack of the new image -/

def segmentProtection (ph : Elf64ProgramHeader) : Word :=
  (if hasBit ph.flags PF_R then NPK_PROT_READ else 0) |||
    (if hasBit ph.flags PF_W then NPK_PROT_WRITE else 0) |||
    (if hasBit ph.flags PF_X then NPK_PROT_EXEC else 0)

def registerSegments (kmalloc : ℕ → Bool) (bias : ℕ) :
    List Elf64ProgramHeader → ℕ → Memory → Bool × Memory
  | [], _, mem => (true, mem)
  | ph :: rest, requests, mem =>
    if ph.kind ≠ PT_LOAD || ph.memsz = 0 then registerSegments kmalloc bias rest requests mem
    else if addOverflow ph.vaddr bias || addOverflow (ph.vaddr + bias) ph.memsz then
      (false, mem)
    else
      let start := pageAlign (ph.vaddr + bias)
      match pageAlignUp (ph.vaddr + bias + ph.memsz) with
      | none => (false, mem)
      | some stop =>
        if stop ≤ start then (false, mem)
        else
          match vmReserveRange (kmalloc requests) mem start (stop - start)
              (segmentProtection ph) (NPK_MAP_PRIVATE ||| NPK_MAP_ANONYMOUS) with
          | (result, mem) =>
            if result < 0 then (false, mem)
            else registerSegments kmalloc bias rest (requests + 1) mem

def registerExecVmas (kmalloc : ℕ → Bool) (image : Image) (bias : ℕ) (mem : Memory) :
    Bool × Memory :=
  registerSegments kmalloc bias (programHeaders image (elfHeader image)) 0 mem

abbrev StackStep := Option (ℕ × List (BitVec 8))

def layoutStrings : List (List (BitVec 8)) → ℕ → List StackStep × List ℕ × ℕ
  | [], sp => ([], [], sp)
  | string :: rest, sp =>
    let length := string.length + 1
    if NPK_PAGE_SIZE < length || sp < NPK_USER_MIN + length then ([none], [], sp)
    else
      let (steps, addresses, last) := layoutStrings rest (sp - length)
      (some (sp - length, string ++ [0]) :: steps, (sp - length) :: addresses, last)

def wordBytes (word : ℕ) : List (BitVec 8) :=
  (List.range 8).map fun i => BitVec.ofNat 8 (word / 256 ^ i)

def layoutWords : List ℕ → ℕ → List StackStep × ℕ
  | [], sp => ([], sp)
  | word :: rest, sp =>
    if sp < NPK_USER_MIN + 8 then ([none], sp)
    else
      let (steps, last) := layoutWords rest (sp - 8)
      (some (sp - 8, wordBytes word) :: steps, last)

def auxiliaryVector (main : ElfLoadResult) (interpreter : Option ElfLoadResult) : List (ℕ × ℕ) :=
  (if main.programHeader ≠ 0 then
    [(3, main.programHeader), (4, main.programHeaderSize), (5, main.programHeaderCount)]
  else []) ++
    [(6, NPK_PAGE_SIZE)] ++
    (match interpreter with
    | some loaded => if loaded.entry ≠ 0 then [(7, loaded.loadBias)] else []
    | none => []) ++
    [(9, main.entry), (0, 0)]

def initialStack (argv envp : List (List (BitVec 8))) (main : ElfLoadResult)
    (interpreter : Option ElfLoadResult) (top : ℕ) : List StackStep × ℕ :=
  if 64 < argv.length || 64 < envp.length then ([none], top)
  else
    let (arguments, argumentAddresses, sp) := layoutStrings argv.reverse top
    let (environment, environmentAddresses, sp) := layoutStrings envp.reverse sp
    let pairs := (auxiliaryVector main interpreter).reverse.flatMap fun (kind, value) =>
      [value, kind]
    let (words, sp) := layoutWords
      (pairs ++ [0] ++ environmentAddresses ++ [0] ++ argumentAddresses ++ [argv.length])
      (sp / 16 * 16)
    (arguments ++ environment ++ words, sp)

def performSteps (answers : Answers) (objects : Objects) :
    List StackStep → Memory → Bool × Memory
  | [], mem => (true, mem)
  | none :: _, mem => (false, mem)
  | some (address, bytes) :: rest, mem =>
    match userStackWrite answers objects mem address bytes with
    | (false, mem) => (false, mem)
    | (true, mem) => performSteps answers objects rest mem

def buildInitialUserStack (answers : Answers) (objects : Objects)
    (argv envp : List (List (BitVec 8))) (main : ElfLoadResult)
    (interpreter : Option ElfLoadResult) (top : ℕ) (mem : Memory) : Option ℕ × Memory :=
  let (steps, sp) := initialStack argv envp main interpreter top
  match performSteps answers objects steps mem with
  | (false, mem) => (none, mem)
  | (true, mem) => (some sp, mem)

structure ExecArguments where
  image : Image
  interpreter : Option Image
  argv : List (List (BitVec 8))
  envp : List (List (BitVec 8))

/-- The checks of `stage_exec_image` before it creates an address space.  The
interpreter's image is what the file system returned for the path. -/
def imagesAccepted (exec : ExecArguments) : Bool :=
  if !elf64Validate exec.image then false
  else
    match elf64GetInterpreter exec.image NPK_ELF_INTERP_MAX with
    | none => false
    | some path =>
      match path, exec.interpreter with
      | [], none => true
      | _ :: _, some interpreter =>
        elf64GetInterpreter interpreter NPK_ELF_INTERP_MAX == some [] &&
          (elfHeader interpreter).kind == ET_DYN && elf64Validate interpreter
      | _, _ => false

def stageImage (answers : Answers) (requests : ℕ) (image : Image) (bias : ℕ) (mem : Memory) :
    Option ElfLoadResult × Memory :=
  match elf64LoadInAddressSpace (answers.kmalloc requests) image bias mem with
  | (.error _, mem) => (none, mem)
  | (.ok loaded, mem) =>
    match registerExecVmas (fun i => answers.kmalloc (requests + 1 + i)) image bias mem with
    | (false, mem) => (none, mem)
    | (true, mem) => (some loaded, mem)

/-- The end of the heap reservation: 4 GiB after its start, unless that is past the
user range. -/
def heapLimit (heapStart : ℕ) : ℕ :=
  if NPK_USER_MAX - 2 ^ 32 < heapStart then NPK_USER_MAX - NPK_PAGE_SIZE
  else heapStart + 2 ^ 32

def UserProcess.withStack (process : UserProcess) : UserProcess :=
  { process with
    userStackTop := NPK_USER_STACK_TOP
    userStackLimit := NPK_USER_STACK_TOP - NPK_USER_STACK_PAGES * NPK_PAGE_SIZE
    userStackBottom := NPK_USER_STACK_TOP }

def UserProcess.withBreak (process : UserProcess) (heapStart : ℕ) : UserProcess :=
  { process with
    brkStart := heapStart
    brkEnd := heapStart
    mmapCursor := VM_USER_MMAP_BASE }

structure StagedExec where
  main : ElfLoadResult
  interpreter : Option ElfLoadResult
  stackPointer : ℕ

def stageHeapAndStack (answers : Answers) (objects : Objects) (exec : ExecArguments)
    (main : ElfLoadResult) (interpreter : Option ElfLoadResult) (mem : Memory) :
    Option StagedExec × Memory :=
  match pageAlignUp (max main.imageEnd ((interpreter.map ElfLoadResult.imageEnd).getD 0)) with
  | none => (none, mem)
  | some heapStart =>
    match vmReserveHeap (answers.kmalloc 200) mem heapStart (heapLimit heapStart) with
    | (result, mem) =>
      if result < 0 then (none, mem)
      else
        match buildInitialUserStack answers objects exec.argv exec.envp main interpreter
            NPK_USER_STACK_TOP { mem with process := mem.process.withStack } with
        | (none, mem) => (none, mem)
        | (some sp, mem) =>
          (some { main := main, interpreter := interpreter, stackPointer := sp },
            { mem with process := mem.process.withBreak heapStart })

def stageAll (answers : Answers) (objects : Objects) (exec : ExecArguments) (mem : Memory) :
    Option StagedExec × Memory :=
  match stageImage answers 0 exec.image (defaultBias (elfHeader exec.image)) mem with
  | (none, mem) => (none, mem)
  | (some main, mem) =>
    match exec.interpreter with
    | none => stageHeapAndStack answers objects exec main none mem
    | some interpreter =>
      match stageImage answers 100 interpreter NPK_USER_INTERP_BASE mem with
      | (none, mem) => (none, mem)
      | (some loaded, mem) =>
        stageHeapAndStack answers objects exec main (some loaded) mem

def emptyProcess (pid : ℕ) (tables : PageTree) : UserProcess :=
  { pid := pid, tables := tables, vmas := [], brkStart := 0, brkEnd := 0, mmapCursor := 0
    userStackTop := 0, userStackBottom := 0, userStackLimit := 0 }

def stageExecImage (answers : Answers) (objects : Objects) (exec : ExecArguments) (pid : ℕ)
    (frames : Frames) : Option UserProcess × Frames :=
  if !imagesAccepted exec then (none, frames)
  else
    match vmmCreateAddressSpace frames with
    | (none, frames) => (none, frames)
    | (some tables, frames) =>
      match stageAll answers objects exec
          { frames := frames, process := emptyProcess pid tables } with
      | (none, mem) => (none, vmmDestroyAddressSpace mem.frames mem.process.tables)
      | (some _, mem) => (some mem.process, mem.frames)

end NPKernel.Vm
