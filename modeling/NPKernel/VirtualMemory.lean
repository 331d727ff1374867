import NPKernel.PageTables

/-!
# Virtual memory areas and page faults

A process's areas are reservations: their pages are made by the first fault or
kernel access.  The kernel heap and the file system answer from outside; their
answers during a call are given with it.
-/

namespace NPKernel.Vm

open RadixTables

def VM_EINVAL : ℤ := -22
def VM_ENOMEM : ℤ := -12
def VM_EEXIST : ℤ := -17

def VM_USER_MMAP_BASE : ℕ := 0x1000000000
def VM_USER_MMAP_LIMIT : ℕ := 0x400000000000
def NPK_USER_MIN : ℕ := 0x10000
def NPK_USER_MAX : ℕ := 0x800000000000

def NPK_PROT_READ : Word := 1
def NPK_PROT_WRITE : Word := 2
def NPK_PROT_EXEC : Word := 4

def NPK_MAP_SHARED : Word := 1
def NPK_MAP_PRIVATE : Word := 2
def NPK_MAP_FIXED : Word := 16
def NPK_MAP_ANONYMOUS : Word := 32
def NPK_MAP_HEAP : Word := 0x100
def NPK_MAP_SHARED_OBJECT : Word := 0x200
def NPK_MAP_DEVICE : Word := 0x400

structure Vma where
  start : ℕ
  stop : ℕ
  protection : Word
  flags : Word
  backingHandle : Option ℕ
  backingOffset : ℕ
  backingSize : ℕ

def Vma.contains (vma : Vma) (address : ℕ) : Bool :=
  decide (vma.start ≤ address) && decide (address < vma.stop)

structure UserProcess where
  pid : ℕ
  tables : PageTree
  vmas : List Vma
  brkStart : ℕ
  brkEnd : ℕ
  mmapCursor : ℕ
  userStackTop : ℕ
  userStackBottom : ℕ
  userStackLimit : ℕ

/-- What a call made for one process works on. -/
structure Memory where
  frames : Frames
  process : UserProcess

/-- What the kernel heap and the file system answer during a call.  `kmalloc` and
`retain` answer by the number of the request; `readAt` gives the bytes when the
whole amount is read. -/
structure Answers where
  kmalloc : ℕ → Bool
  retain : ℕ → Bool
  fileBacked : Bool
  fileSize : ℤ
  readAt : ℕ → ℕ → ℕ → Option (ℕ → BitVec 8)

abbrev Objects := ℕ → Option (List ℕ)

def Memory.setTables (mem : Memory) (tables : PageTree) : Memory :=
  { mem with process := { mem.process with tables := tables } }

def Memory.setVmas (mem : Memory) (vmas : List Vma) : Memory :=
  { mem with process := { mem.process with vmas := vmas } }

def Memory.setFrames (mem : Memory) (frames : Frames) : Memory := { mem with frames := frames }

/-! ## Arithmetic of the page size -/

def addOverflow (a b : ℕ) : Bool := decide (UINT64_MAX - a < b)

def pageAlign (value : ℕ) : ℕ := value / NPK_PAGE_SIZE * NPK_PAGE_SIZE

def pageAlignUp (value : ℕ) : Option ℕ :=
  if UINT64_MAX - (NPK_PAGE_SIZE - 1) < value then none
  else some ((value + NPK_PAGE_SIZE - 1) / NPK_PAGE_SIZE * NPK_PAGE_SIZE)

def pagesBetween (start stop : ℕ) : ℕ := (stop - start + NPK_PAGE_SIZE - 1) / NPK_PAGE_SIZE

/-! ## The list of areas -/

def overlaps (vmas : List Vma) (start stop : ℕ) : Bool :=
  vmas.any fun vma => decide (start < vma.stop) && decide (vma.start < stop)

def findVma (vmas : List Vma) (address : ℕ) : Option Vma :=
  vmas.find? fun vma => vma.contains address

def findHeapVma (vmas : List Vma) : Option Vma :=
  vmas.find? fun vma => hasBit vma.flags NPK_MAP_HEAP

def replaceFirst (test : Vma → Bool) (replace : Vma → List Vma) : List Vma → List Vma
  | [] => []
  | vma :: rest =>
    if test vma then replace vma ++ rest else vma :: replaceFirst test replace rest

def writeAndExec (protection : Word) : Bool :=
  hasBit protection NPK_PROT_WRITE && hasBit protection NPK_PROT_EXEC

def pageFlagsFor (protection : Word) : PageFlags :=
  { user := true
    write := hasBit protection NPK_PROT_WRITE
    nx := !hasBit protection NPK_PROT_EXEC }

/-- The search for a gap in the mmap area, one page at a time. -/
def findGap (vmas : List Vma) (size : ℕ) : ℕ → ℕ → Option ℕ
  | 0, _ => none
  | fuel + 1, start =>
    if addOverflow start size || decide (VM_USER_MMAP_LIMIT < start + size) ||
        overlaps vmas start (start + size) then
      -- a sum that wraps is below the base in the source and above the limit here
      let next := start + NPK_PAGE_SIZE
      if next < VM_USER_MMAP_BASE || VM_USER_MMAP_LIMIT ≤ next then none
      else findGap vmas size fuel next
    else some start

def chooseStart (process : UserProcess) (hint size : ℕ) (flags : Word) : Except ℤ ℕ :=
  if hasBit flags NPK_MAP_FIXED then
    if hint % NPK_PAGE_SIZE ≠ 0 then .error VM_EINVAL else .ok hint
  else
    let wanted :=
      if hint ≠ 0 then pageAlign hint
      else if process.mmapCursor ≠ 0 then process.mmapCursor else VM_USER_MMAP_BASE
    let start := if wanted < VM_USER_MMAP_BASE then VM_USER_MMAP_BASE else wanted
    match findGap process.vmas size (VM_USER_MMAP_LIMIT / NPK_PAGE_SIZE + 1) start with
    | none => .error VM_ENOMEM
    | some start => .ok start

def vmMapAnonymous (answers : Answers) (mem : Memory) (hint length : ℕ)
    (protection flags : Word) : Except ℤ ℕ × Memory :=
  if length = 0 || !hasBit flags NPK_MAP_ANONYMOUS ||
      !hasBit flags (NPK_MAP_SHARED ||| NPK_MAP_PRIVATE) || hasBit protection (~~~7) ||
      writeAndExec protection then (.error VM_EINVAL, mem)
  else
    match pageAlignUp length with
    | none => (.error VM_EINVAL, mem)
    | some size =>
      if size = 0 || VM_USER_MMAP_LIMIT - VM_USER_MMAP_BASE < size then
        (.error VM_EINVAL, mem)
      else
        match chooseStart mem.process hint size flags with
        | .error code => (.error code, mem)
        | .ok start =>
          if start < NPK_USER_MIN || addOverflow start size ||
              NPK_USER_MAX < start + size ||
              overlaps mem.process.vmas start (start + size) then (.error VM_EEXIST, mem)
          else if !answers.kmalloc 0 then (.error VM_ENOMEM, mem)
          else
            let vma : Vma :=
              { start := start, stop := start + size, protection := protection
                flags := flags, backingHandle := none, backingOffset := 0
                backingSize := 0 }
            (.ok start,
              { mem with
                process :=
                  { mem.process with
                    vmas := vma :: mem.process.vmas
                    mmapCursor := vma.stop + NPK_PAGE_SIZE } })

/-! ## Unmapping -/

def freeUnlessZero (frames : Frames) (frame : ℕ) : Frames :=
  if frame ≠ 0 then freeFrame frames frame else frames

def unmapPage (mem : Memory) (page : ℕ) : Memory :=
  let result := vmmUnmapPageRoot mem.process.tables page
  { frames := freeUnlessZero mem.frames result.1
    process := { mem.process with tables := result.2 } }

def unmapPages : ℕ → ℕ → Memory → Memory
  | 0, _, mem => mem
  | count + 1, page, mem => unmapPages count (page + NPK_PAGE_SIZE) (unmapPage mem page)

/-- What is left of an area of which a range is unmapped. -/
def Vma.cut (vma : Vma) (address stop : ℕ) : List Vma :=
  let backed := vma.backingHandle.isSome
  let left : Vma :=
    { vma with
      stop := address
      backingSize := if backed then min (address - vma.start) vma.backingSize
        else vma.backingSize }
  let right : Vma :=
    { vma with
      start := stop
      backingOffset := if backed then vma.backingOffset + (stop - vma.start)
        else vma.backingOffset
      backingSize := if backed then vma.backingSize - (stop - vma.start)
        else vma.backingSize }
  if vma.start < address ∧ stop < vma.stop then [left, right]
  else if address = vma.start ∧ stop = vma.stop then []
  else if address = vma.start then [right]
  else [left]

def vmUnmap (answers : Answers) (mem : Memory) (address length : ℕ) : ℤ × Memory :=
  if address % NPK_PAGE_SIZE ≠ 0 || length = 0 then (VM_EINVAL, mem)
  else
    match pageAlignUp length with
    | none => (VM_EINVAL, mem)
    | some size =>
      if addOverflow address size then (VM_EINVAL, mem)
      else
        let stop := address + size
        let inside := fun vma : Vma => decide (vma.start ≤ address) && decide (stop ≤ vma.stop)
        match mem.process.vmas.find? inside with
        | none => (VM_EINVAL, mem)
        | some vma =>
          let middle := decide (vma.start < address) && decide (stop < vma.stop)
          if hasBit vma.flags NPK_MAP_HEAP then (VM_EINVAL, mem)
          else if middle && (!answers.kmalloc 0 ||
              (vma.backingHandle.isSome && !answers.retain 0)) then (VM_ENOMEM, mem)
          else
            let vmas := replaceFirst inside (fun vma => vma.cut address stop) mem.process.vmas
            (0, unmapPages (pagesBetween address stop) address (mem.setVmas vmas))

def vmRevokeDeviceMappings (answers : Answers) (mem : Memory) : Memory :=
  mem.process.vmas.foldl (fun mem vma =>
      if hasBit vma.flags NPK_MAP_DEVICE then
        (vmUnmap answers mem vma.start (vma.stop - vma.start)).2
      else mem) mem

/-! ## Mappings of files, shared objects and the framebuffer -/

/-- The end of `vm_map_file` and `vm_map_shared`: an anonymous area is mapped, the
handle is retained and the area becomes one of the handle. -/
def mapBacked (answers : Answers) (mem : Memory) (hint length : ℕ) (protection flags : Word)
    (convert : Vma → Vma) : Except ℤ ℕ × Memory :=
  match vmMapAnonymous answers mem hint length protection (flags ||| NPK_MAP_ANONYMOUS) with
  | (.error code, mem) => (.error code, mem)
  | (.ok mapped, mem) =>
    if !answers.retain 0 then (.error VM_EINVAL, (vmUnmap answers mem mapped length).2)
    else
      match findVma mem.process.vmas mapped with
      | none => (.error VM_EINVAL, (vmUnmap answers mem mapped length).2)
      | some _ =>
        (.ok mapped, mem.setVmas (replaceFirst (fun vma => vma.contains mapped)
          (fun vma => [convert vma]) mem.process.vmas))

def vmMapFile (answers : Answers) (mem : Memory) (handle hint length : ℕ)
    (protection flags : Word) (offset : ℕ) : Except ℤ ℕ × Memory :=
  if length = 0 || hasBit flags NPK_MAP_ANONYMOUS ||
      !hasBit flags (NPK_MAP_SHARED ||| NPK_MAP_PRIVATE) || hasBit protection (~~~7) ||
      writeAndExec protection || offset % NPK_PAGE_SIZE ≠ 0 ||
      (hasBit protection NPK_PROT_WRITE && hasBit flags NPK_MAP_SHARED) ||
      !answers.fileBacked then (.error VM_EINVAL, mem)
  else if answers.fileSize < 0 || UINT64_MAX - length < offset then (.error VM_EINVAL, mem)
  else
    let available := answers.fileSize.toNat - offset
    mapBacked answers mem hint length protection flags fun vma =>
      { vma with
        flags := vma.flags &&& ~~~NPK_MAP_ANONYMOUS
        backingHandle := some handle
        backingOffset := offset
        backingSize := min available (vma.stop - vma.start) }

def vmMapShared (answers : Answers) (objects : Objects) (mem : Memory)
    (handle hint length : ℕ) (protection flags : Word) (offset : ℕ) :
    Except ℤ ℕ × Memory :=
  match objects handle with
  | none => (.error VM_EINVAL, mem)
  | some pages =>
    if length = 0 || hasBit flags NPK_MAP_ANONYMOUS || !hasBit flags NPK_MAP_SHARED ||
        hasBit flags NPK_MAP_PRIVATE || hasBit protection (~~~7) ||
        writeAndExec protection || offset % NPK_PAGE_SIZE ≠ 0 then (.error VM_EINVAL, mem)
    else if pages.length = 0 || UINT64_MAX - length < offset ||
        pages.length * NPK_PAGE_SIZE < offset + length then (.error VM_EINVAL, mem)
    else
      mapBacked answers mem hint length protection flags fun vma =>
        { vma with
          flags := (vma.flags &&& ~~~NPK_MAP_ANONYMOUS) ||| NPK_MAP_SHARED_OBJECT
          backingHandle := some handle
          backingOffset := offset
          backingSize := vma.stop - vma.start }

def Memory.mapPage (mem : Memory) (page frame : ℕ) (flags : PageFlags) : Bool × Memory :=
  let result := vmmMapPageRoot mem.frames mem.process.tables page frame flags
  (result.1,
    { frames := result.2.1, process := { mem.process with tables := result.2.2 } })

def mapDevicePages (flags : PageFlags) : ℕ → ℕ → ℕ → Memory → Bool × Memory
  | 0, _, _, mem => (true, mem)
  | count + 1, page, frame, mem =>
    match mem.mapPage page frame flags with
    | (false, mem) => (false, mem)
    | (true, mem) => mapDevicePages flags count (page + NPK_PAGE_SIZE) (frame + 1) mem

def vmMapDevice (answers : Answers) (mem : Memory) (hint physical length : ℕ)
    (protection flags : Word) : Except ℤ ℕ × Memory :=
  if length = 0 || hasBit flags NPK_MAP_ANONYMOUS || !hasBit flags NPK_MAP_SHARED ||
      hasBit flags NPK_MAP_PRIVATE || hasBit protection (~~~7) ||
      hasBit protection NPK_PROT_EXEC || physical % NPK_PAGE_SIZE ≠ 0 then
    (.error VM_EINVAL, mem)
  else
    match pageAlignUp length with
    | none => (.error VM_EINVAL, mem)
    | some size =>
      if size = 0 || UINT64_MAX - size < physical then (.error VM_EINVAL, mem)
      else
        match vmMapAnonymous answers mem hint size protection (flags ||| NPK_MAP_ANONYMOUS) with
        | (.error code, mem) => (.error code, mem)
        | (.ok mapped, mem) =>
          match findVma mem.process.vmas mapped with
          | none => (.error VM_EINVAL, (vmUnmap answers mem mapped size).2)
          | some _ =>
            let mem := mem.setVmas (replaceFirst (fun vma => vma.contains mapped) (fun vma =>
                [{ vma with
                   flags := (vma.flags &&& ~~~NPK_MAP_ANONYMOUS) ||| NPK_MAP_DEVICE }])
              mem.process.vmas)
            match mapDevicePages { pageFlagsFor protection with device := true }
                (pagesBetween 0 size) mapped (physical / NPK_PAGE_SIZE) mem with
            | (false, mem) => (.error VM_ENOMEM, (vmUnmap answers mem mapped size).2)
            | (true, mem) => (.ok mapped, mem)

/-! ## Reservations of the loader and the heap -/

def vmReserveRange (kmalloc : Bool) (mem : Memory) (start length : ℕ)
    (protection flags : Word) : ℤ × Memory :=
  match pageAlignUp length with
  | none => (VM_EINVAL, mem)
  | some size =>
    if start < NPK_USER_MIN || start % NPK_PAGE_SIZE ≠ 0 || length = 0 || size = 0 ||
        addOverflow start size || NPK_USER_MAX < start + size ||
        hasBit protection (~~~7) || writeAndExec protection ||
        overlaps mem.process.vmas start (start + size) then (VM_EINVAL, mem)
    else if !kmalloc then (VM_ENOMEM, mem)
    else
      (0, mem.setVmas
        ({ start := start, stop := start + size, protection := protection, flags := flags
           backingHandle := none, backingOffset := 0, backingSize := 0 } ::
          mem.process.vmas))

def vmReserveHeap (kmalloc : Bool) (mem : Memory) (start limit : ℕ) : ℤ × Memory :=
  if limit ≤ start || (findHeapVma mem.process.vmas).isSome then (VM_EINVAL, mem)
  else
    match vmReserveRange kmalloc mem start (limit - start) (NPK_PROT_READ ||| NPK_PROT_WRITE)
        (NPK_MAP_PRIVATE ||| NPK_MAP_ANONYMOUS ||| NPK_MAP_HEAP) with
    | (result, mem) =>
      if result ≠ 0 then (result, mem)
      else
        (0, { mem with process := { mem.process with brkStart := start, brkEnd := start } })

def vmResizeHeap (mem : Memory) (newEnd : ℕ) : ℤ × Memory :=
  match findHeapVma mem.process.vmas with
  | none => (VM_EINVAL, mem)
  | some heap =>
    if newEnd % NPK_PAGE_SIZE ≠ 0 || newEnd < heap.start || heap.stop < newEnd then
      (VM_EINVAL, mem)
    else
      let mem :=
        if newEnd < mem.process.brkEnd then
          unmapPages (pagesBetween newEnd mem.process.brkEnd) newEnd mem
        else mem
      (0, { mem with process := { mem.process with brkEnd := newEnd } })

def sysBrk (mem : Memory) (requested : ℕ) : ℕ × Memory :=
  if requested = 0 then (mem.process.brkEnd, mem)
  else if requested < mem.process.brkStart || NPK_USER_MAX ≤ requested ||
      UINT64_MAX - (NPK_PAGE_SIZE - 1) < requested then (mem.process.brkEnd, mem)
  else
    let target := (requested + NPK_PAGE_SIZE - 1) / NPK_PAGE_SIZE * NPK_PAGE_SIZE
    match vmResizeHeap mem target with
    | (result, mem) => if result ≠ 0 then (mem.process.brkEnd, mem) else (requested, mem)

/-! ## Changing protections -/

/-- Whether `vm_protect` finds an area other than the heap at every step from the
cursor to the end. -/
def protectable (vmas : List Vma) (stop : ℕ) : ℕ → ℕ → Bool
  | 0, cursor => decide (stop ≤ cursor)
  | fuel + 1, cursor =>
    if stop ≤ cursor then true
    else
      match findVma vmas cursor with
      | none => false
      | some vma =>
        if hasBit vma.flags NPK_MAP_HEAP then false
        else protectable vmas stop fuel (min vma.stop stop)

def Vma.splitAt (vma : Vma) (point : ℕ) : List Vma :=
  let delta := point - vma.start
  let backed := vma.backingHandle.isSome
  [{ vma with
      stop := point
      backingSize := if backed then min delta vma.backingSize else vma.backingSize },
    { vma with
      start := point
      backingOffset := if backed then vma.backingOffset + delta else vma.backingOffset
      backingSize := if backed then vma.backingSize - delta else vma.backingSize }]

def straddles (point : ℕ) (vma : Vma) : Bool :=
  decide (vma.start < point) && decide (point < vma.stop)

def splitVmaAt (kmalloc retain : Bool) (vmas : List Vma) (point : ℕ) : Option (List Vma) :=
  match vmas.find? (straddles point) with
  | none => some vmas
  | some vma =>
    if !kmalloc || (vma.backingHandle.isSome && !retain) then none
    else some (replaceFirst (straddles point) (fun vma => vma.splitAt point) vmas)

def Vma.protect (address stop : ℕ) (protection : Word) (vma : Vma) : Vma :=
  if vma.start < address || stop < vma.stop then vma
  else { vma with protection := protection }

def protectPages (flags : PageFlags) : ℕ → ℕ → PageTree → Bool × PageTree
  | 0, _, tables => (true, tables)
  | count + 1, page, tables =>
    if vmmLookupRoot tables page { user := true } ≠ 0 then
      match vmmProtectPageRoot tables page flags with
      | (false, tables) => (false, tables)
      | (true, tables) => protectPages flags count (page + NPK_PAGE_SIZE) tables
    else protectPages flags count (page + NPK_PAGE_SIZE) tables

def vmProtect (answers : Answers) (mem : Memory) (address length : ℕ)
    (protection : Word) : ℤ × Memory :=
  if address % NPK_PAGE_SIZE ≠ 0 || length = 0 || hasBit protection (~~~7) ||
      writeAndExec protection then (VM_EINVAL, mem)
  else
    match pageAlignUp length with
    | none => (VM_EINVAL, mem)
    | some size =>
      if addOverflow address size || address < NPK_USER_MIN ||
          NPK_USER_MAX < address + size then (VM_EINVAL, mem)
      else
        let stop := address + size
        if !protectable mem.process.vmas stop (mem.process.vmas.length + 1) address then
          (VM_EINVAL, mem)
        else
          match splitVmaAt (answers.kmalloc 0) (answers.retain 0) mem.process.vmas address with
          | none => (VM_ENOMEM, mem)
          | some vmas =>
            match splitVmaAt (answers.kmalloc 1) (answers.retain 1) vmas stop with
            | none => (VM_ENOMEM, mem.setVmas vmas)
            | some vmas =>
              let mem := mem.setVmas (vmas.map (Vma.protect address stop protection))
              match protectPages (pageFlagsFor protection) (pagesBetween address stop)
                  address mem.process.tables with
              | (false, tables) => (VM_EINVAL, mem.setTables tables)
              | (true, tables) => (0, mem.setTables tables)

def sysMprotect (answers : Answers) (mem : Memory) (address length : ℕ)
    (protection : Word) : ℤ × Memory :=
  if !vmmIsUserRange address length then (-14, mem)
  else vmProtect answers mem address length protection

/-! ## Making pages -/

def mapZeroPage (mem : Memory) (page : ℕ) (protection : Word) : Bool × Memory :=
  if !vmmIsUserRange page NPK_PAGE_SIZE then (false, mem)
  else
    match allocFrame mem.frames with
    | (none, frames) => (false, mem.setFrames frames)
    | (some physical, frames) =>
      match (mem.setFrames frames).mapPage page physical (pageFlagsFor protection) with
      | (false, mem) => (false, mem.setFrames (freeFrame mem.frames physical))
      | (true, mem) => (true, mem.setFrames (mem.frames.store physical fun _ => 0))

def filePage (answers : Answers) (handle : ℕ) (vma : Vma) (page : ℕ) : Option (ℕ → BitVec 8) :=
  let delta := page - vma.start
  if delta < vma.backingSize then
    let amount := min (vma.backingSize - delta) NPK_PAGE_SIZE
    (answers.readAt handle amount (vma.backingOffset + delta)).map fun bytes offset =>
      if offset < amount then bytes offset else 0
  else some fun _ => 0

def mapFilePage (answers : Answers) (mem : Memory) (handle : ℕ) (vma : Vma) (page : ℕ) :
    Bool × Memory :=
  if page < vma.start || vma.stop ≤ page || !vmmIsUserRange page NPK_PAGE_SIZE then
    (false, mem)
  else
    match allocFrame mem.frames with
    | (none, frames) => (false, mem.setFrames frames)
    | (some physical, frames) =>
      match filePage answers handle vma page with
      | none => (false, mem.setFrames (freeFrame frames physical))
      | some contents =>
        match (mem.setFrames (frames.store physical contents)).mapPage page physical
            (pageFlagsFor vma.protection) with
        | (false, mem) => (false, mem.setFrames (freeFrame mem.frames physical))
        | (true, mem) => (true, mem)

def vfsShmPage (objects : Objects) (handle index : ℕ) : ℕ :=
  match objects handle with
  | none => 0
  | some pages => pages.getD index 0

def mapSharedPage (objects : Objects) (mem : Memory) (vma : Vma) (page : ℕ) : Bool × Memory :=
  match vma.backingHandle with
  | none => (false, mem)
  | some handle =>
    let delta := page - vma.start
    if page < vma.start || vma.stop ≤ page || !vmmIsUserRange page NPK_PAGE_SIZE ||
        vma.backingSize ≤ delta then (false, mem)
    else
      let physical := vfsShmPage objects handle ((vma.backingOffset + delta) / NPK_PAGE_SIZE)
      if physical = 0 then (false, mem)
      else
        match (mem.setFrames (retainFrame mem.frames physical)).mapPage page physical
            { pageFlagsFor vma.protection with shared := true } with
        | (false, mem) => (false, mem.setFrames (freeFrame mem.frames physical))
        | (true, mem) => (true, mem)

def stackPageAllowed (process : UserProcess) (page rsp : ℕ) (fromKernel : Bool) : Bool :=
  if process.userStackTop = 0 || process.userStackLimit = 0 then false
  else if page < process.userStackLimit || process.userStackTop ≤ page then false
  else if process.userStackBottom ≤ page then true
  else if fromKernel then true
  else if rsp < process.userStackLimit || process.userStackTop < rsp then false
  else decide (pageAlign rsp ≤ page + NPK_PAGE_SIZE)

/-- The page of an area, or of the stack. -/
def makePage (answers : Answers) (objects : Objects) (mem : Memory) (vma : Option Vma)
    (page : ℕ) (protection : Word) : Bool × Memory :=
  match vma with
  | none => mapZeroPage mem page protection
  | some vma =>
    if hasBit vma.flags NPK_MAP_SHARED_OBJECT then mapSharedPage objects mem vma page
    else
      match vma.backingHandle with
      | some handle => mapFilePage answers mem handle vma page
      | none => mapZeroPage mem page protection

def growStack (mem : Memory) (stack : Bool) (page : ℕ) : Memory :=
  if stack && decide (page < mem.process.userStackBottom) then
    { mem with process := { mem.process with userStackBottom := page } }
  else mem

def heapLimited (process : UserProcess) (vma : Option Vma) (address : ℕ) : Bool :=
  match vma with
  | none => false
  | some vma => hasBit vma.flags NPK_MAP_HEAP && decide (process.brkEnd ≤ address)

def vmEnsureUserPage (answers : Answers) (objects : Objects) (mem : Memory) (address : ℕ)
    (write : Bool) : Bool × Memory :=
  if !vmmIsUserRange address 1 then (false, mem)
  else if vmmLookupRoot mem.process.tables address { user := true, write := write } ≠ 0 then
    (true, mem)
  else
    let page := pageAlign address
    let vma := findVma mem.process.vmas address
    let protection := (vma.map Vma.protection).getD 0
    let stack := stackPageAllowed mem.process page 0 true
    if heapLimited mem.process vma address then (false, mem)
    else if vma.isNone && !stack then (false, mem)
    else if write && !hasBit protection NPK_PROT_WRITE && !stack then (false, mem)
    else if !write && !hasBit protection (NPK_PROT_READ ||| NPK_PROT_WRITE ||| NPK_PROT_EXEC)
        && !stack then (false, mem)
    else
      match makePage answers objects mem vma page
          (if stack then NPK_PROT_READ ||| NPK_PROT_WRITE else protection) with
      | (false, mem) => (false, mem)
      | (true, mem) => (true, growStack mem stack page)

def vmHandlePageFault (answers : Answers) (objects : Objects) (mem : Memory)
    (address : ℕ) (errorCode : Word) (rsp : ℕ) : Bool × Memory :=
  if !vmmIsUserRange address 1 then (false, mem)
  else
    let write := hasBit errorCode 2
    if hasBit errorCode 1 then
      if !write then (false, mem)
      else
        let result := vmmResolveCowFault mem.frames mem.process.tables address
        (result.1,
          { frames := result.2.1, process := { mem.process with tables := result.2.2 } })
    else
      let page := pageAlign address
      if hasBit errorCode 16 || !vmmIsUserRange page NPK_PAGE_SIZE then (false, mem)
      else
        let vma := findVma mem.process.vmas address
        let stack := stackPageAllowed mem.process page rsp false
        let protection :=
          if stack then NPK_PROT_READ ||| NPK_PROT_WRITE
          else (vma.map Vma.protection).getD 0
        if heapLimited mem.process vma address then (false, mem)
        else if vma.isNone && !stack then (false, mem)
        else if write && !hasBit protection NPK_PROT_WRITE then (false, mem)
        else if !write &&
            !hasBit protection (NPK_PROT_READ ||| NPK_PROT_WRITE ||| NPK_PROT_EXEC) then
          (false, mem)
        else
          match makePage answers objects mem vma page protection with
          | (false, mem) => (false, mem)
          | (true, mem) => (true, growStack mem stack page)

/-! ## Copies between the kernel and a process -/

def Frames.writeBytes (frames : Frames) (physical : ℕ) (bytes : List (BitVec 8)) : Frames :=
  let frame := physical / NPK_PAGE_SIZE
  let first := physical % NPK_PAGE_SIZE
  frames.store frame fun offset =>
    if first ≤ offset ∧ offset < first + bytes.length then bytes.getD (offset - first) 0
    else frames.bytes frame offset

/-- The part of an iteration of the kernel's writes before the copy: the page is
made writable if it can be.  `vmm_copyout` and `copyout_process` resolve
copy-on-write first, `user_stack_write` does not. -/
def prepareWrite (answers : Answers) (objects : Objects) (resolve : Bool) (mem : Memory)
    (address : ℕ) : Memory :=
  let writable := fun mem : Memory =>
    vmmLookupRoot mem.process.tables address { user := true, write := true } != 0
  let mem :=
    if !writable mem && resolve then
      let result := vmmResolveCowFault mem.frames mem.process.tables address
      { frames := result.2.1, process := { mem.process with tables := result.2.2 } }
    else mem
  if writable mem then mem else (vmEnsureUserPage answers objects mem address true).2

def writePage (answers : Answers) (objects : Objects) (resolve : Bool) (mem : Memory)
    (address : ℕ) (bytes : List (BitVec 8)) : Bool × Memory :=
  let mem := prepareWrite answers objects resolve mem address
  let physical :=
    vmmLookupRoot mem.process.tables address { user := true, write := true }
  if physical = 0 then (false, mem)
  else (true, mem.setFrames (mem.frames.writeBytes physical bytes))

def writeLoop (answers : Answers) (objects : Objects) (resolve : Bool) :
    ℕ → Memory → ℕ → List (BitVec 8) → Bool × Memory
  | 0, mem, _, bytes => (bytes.isEmpty, mem)
  | fuel + 1, mem, address, bytes =>
    if bytes.isEmpty then (true, mem)
    else
      let amount := min bytes.length (NPK_PAGE_SIZE - address % NPK_PAGE_SIZE)
      match writePage answers objects resolve mem address (bytes.take amount) with
      | (false, mem) => (false, mem)
      | (true, mem) =>
        writeLoop answers objects resolve fuel mem (address + amount) (bytes.drop amount)

def kernelWrite (answers : Answers) (objects : Objects) (resolve : Bool) (mem : Memory)
    (address : ℕ) (bytes : List (BitVec 8)) : Bool × Memory :=
  if !vmmIsUserRange address bytes.length then (false, mem)
  else writeLoop answers objects resolve bytes.length mem address bytes

def vmmCopyout (answers : Answers) (objects : Objects) (mem : Memory) (address : ℕ)
    (bytes : List (BitVec 8)) : Bool × Memory :=
  kernelWrite answers objects true mem address bytes

def userStackWrite (answers : Answers) (objects : Objects) (mem : Memory) (address : ℕ)
    (bytes : List (BitVec 8)) : Bool × Memory :=
  kernelWrite answers objects false mem address bytes

def Frames.readBytes (frames : Frames) (physical count : ℕ) : List (BitVec 8) :=
  (List.range count).map fun i =>
    frames.bytes (physical / NPK_PAGE_SIZE) (physical % NPK_PAGE_SIZE + i)

def copyinLoop (answers : Answers) (objects : Objects) :
    ℕ → Memory → ℕ → ℕ → Option (List (BitVec 8)) × Memory
  | 0, mem, _, length => (if length = 0 then some [] else none, mem)
  | fuel + 1, mem, address, length =>
    if length = 0 then (some [], mem)
    else
      let mem :=
        if vmmLookupRoot mem.process.tables address { user := true } = 0 then
          (vmEnsureUserPage answers objects mem address false).2
        else mem
      let physical := vmmLookupRoot mem.process.tables address { user := true }
      if physical = 0 then (none, mem)
      else
        let amount := min length (NPK_PAGE_SIZE - address % NPK_PAGE_SIZE)
        match copyinLoop answers objects fuel mem (address + amount) (length - amount) with
        | (none, mem) => (none, mem)
        | (some rest, last) => (some (mem.frames.readBytes physical amount ++ rest), last)

def vmmCopyin (answers : Answers) (objects : Objects) (mem : Memory) (address length : ℕ) :
    Option (List (BitVec 8)) × Memory :=
  if !vmmIsUserRange address length then (none, mem)
  else copyinLoop answers objects length mem address length

end NPKernel.Vm
