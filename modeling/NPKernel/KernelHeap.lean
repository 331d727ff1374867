import NPKernel.MachineWords

/-!
# The kernel heap

`src/memory/heap.c`: blocks with a header of 48 bytes in one window of virtual
memory, linked in both directions.  The memory of the window is modelled by its
64-bit words, which the allocator and its clients share: the headers are words of
it.  Blocks are aligned to 16 bytes, so every field of a header but the `free`
byte is a word.  Reading a header outside of the mapped part of the window is a
page fault, and a loop over the blocks that passes more headers than the window
has bytes does not end; both are `none`.
-/

namespace NPKernel

def NPK_HEAP_BASE : ℕ := 0xffff900000000000
def NPK_HEAP_LIMIT : ℕ := 0xffff900004000000
def NPK_HEAP_ALIGNMENT : ℕ := 16
def NPK_HEAP_PAGE : ℕ := 4096
def HEAP_MAGIC : ℕ := 0x4e504b4845415041
def HEAP_FREED : ℕ := 0x4e504b4652454544

/-- `sizeof(heap_block_t)`. -/
def HEAP_HEADER : ℕ := 48

structure Heap where
  words : ℕ → ℕ
  head : ℕ
  mapped : ℕ
  free : ℕ
  ready : Bool

def add64 (a b : ℕ) : ℕ := (a + b) % 2 ^ 64

def sub64 (a b : ℕ) : ℕ := (a + (2 ^ 64 - b % 2 ^ 64)) % 2 ^ 64

def addOverflowU64 (a b : ℕ) : Bool := 2 ^ 64 - 1 - a < b

def alignUpU64 (value alignment : ℕ) : ℕ :=
  if alignment = 0 || 2 ^ 64 - 1 - (alignment - 1) < value then 0
  else (value + alignment - 1) / alignment * alignment

namespace Heap

/-! ## Headers -/

def magic (h : Heap) (block : ℕ) : ℕ := h.words block

def size (h : Heap) (block : ℕ) : ℕ := h.words (block + 8)

def isFree (h : Heap) (block : ℕ) : Bool := h.words (block + 16) % 256 != 0

def next (h : Heap) (block : ℕ) : ℕ := h.words (block + 24)

def prev (h : Heap) (block : ℕ) : ℕ := h.words (block + 32)

def setWord (h : Heap) (address value : ℕ) : Heap :=
  { h with words := Function.update h.words address value }

def setMagic (h : Heap) (block value : ℕ) : Heap := h.setWord block value

def setSize (h : Heap) (block value : ℕ) : Heap := h.setWord (block + 8) value

/-- The `free` byte; the seven reserved bytes behind it are never written. -/
def setFree (h : Heap) (block : ℕ) (value : ℕ) : Heap :=
  h.setWord (block + 16) (h.words (block + 16) / 256 * 256 + value)

def setNext (h : Heap) (block value : ℕ) : Heap := h.setWord (block + 24) value

def setPrev (h : Heap) (block value : ℕ) : Heap := h.setWord (block + 32) value

def addFree (h : Heap) (value : ℕ) : Heap := { h with free := add64 h.free value }

def holds (h : Heap) (block : ℕ) : Bool :=
  NPK_HEAP_BASE ≤ block && block + HEAP_HEADER ≤ NPK_HEAP_BASE + h.mapped

def pointerInHeap (h : Heap) (pointer : ℕ) : Bool :=
  NPK_HEAP_BASE + HEAP_HEADER ≤ pointer && pointer < NPK_HEAP_BASE + h.mapped

/-! ## Growing -/

def grow (h : Heap) : Heap :=
  { h with
    words := fun a =>
      if NPK_HEAP_BASE + h.mapped ≤ a ∧ a < NPK_HEAP_BASE + h.mapped + NPK_HEAP_PAGE then 0
      else h.words a
    mapped := h.mapped + NPK_HEAP_PAGE }

/-- The loop of `map_more`; `grants` says for each page whether it could be
allocated and mapped. -/
def mapPages (grants : ℕ → Bool) (required : ℕ) : ℕ → Heap → Bool × Heap
  | 0, h => (true, h)
  | pages + 1, h =>
    if h.mapped < required then
      if grants 0 then mapPages (fun k => grants (k + 1)) required pages h.grow
      else (false, h)
    else (true, h)

def mapMore (grants : ℕ → Bool) (requiredBytes : ℕ) (h : Heap) : Bool × Heap :=
  let required := alignUpU64 requiredBytes NPK_HEAP_PAGE
  if required = 0 || NPK_HEAP_LIMIT - NPK_HEAP_BASE < required then (false, h)
  else mapPages grants required (required / NPK_HEAP_PAGE) h

/-! ## Blocks -/

def findFree (h : Heap) (size : ℕ) : ℕ → ℕ → Option ℕ
  | 0, _ => none
  | fuel + 1, block =>
    if block = 0 then some 0
    else if !h.holds block then none
    else if h.isFree block && size ≤ h.size block then some block
    else findFree h size fuel (h.next block)

def lastBlock (h : Heap) : ℕ → ℕ → Option ℕ
  | 0, _ => none
  | fuel + 1, block =>
    if !h.holds block then none
    else if h.next block = 0 then some block
    else lastBlock h fuel (h.next block)

def linkBack (h : Heap) (block value : ℕ) : Option Heap :=
  if block = 0 then some h
  else if !h.holds block then none
  else some (h.setPrev block value)

def splitBlock (h : Heap) (block size : ℕ) : Option (Bool × Heap) :=
  if h.size block < add64 size (HEAP_HEADER + NPK_HEAP_ALIGNMENT) then some (false, h)
  else
    let tail := add64 (block + HEAP_HEADER) size
    if !h.holds tail then none
    else
      let h := h.setMagic tail HEAP_MAGIC
      let h := h.setSize tail (sub64 (sub64 (h.size block) size) HEAP_HEADER)
      let h := h.setFree tail 1
      let h := h.setNext tail (h.next block)
      let h := h.setPrev tail block
      match h.linkBack (h.next tail) tail with
      | none => none
      | some h => some (true, (h.setNext block tail).setSize block size)

def mergeWithNext (h : Heap) (block : ℕ) : Option Heap :=
  let next := h.next block
  if next = 0 then some h
  else if !h.holds next then none
  else if !h.isFree next then some h
  else if next ≠ add64 (block + HEAP_HEADER) (h.size block) || h.magic next ≠ HEAP_MAGIC then
    some h
  else
    let h := h.setSize block (add64 (h.size block) (HEAP_HEADER + h.size next))
    let h := h.addFree HEAP_HEADER
    let h := h.setNext block (h.next next)
    match h.linkBack (h.next block) block with
    | none => none
    | some h => some ((h.setMagic next HEAP_FREED).setFree next 1)

def kheapInit (granted : Bool) (words : ℕ → ℕ) : Heap :=
  let h : Heap := { words := words, head := 0, mapped := 0, free := 0, ready := false }
  match h.mapMore (fun _ => granted) NPK_HEAP_PAGE with
  | (false, h) => h
  | (true, h) =>
    let h := { h with head := NPK_HEAP_BASE }
    let h := h.setMagic NPK_HEAP_BASE HEAP_MAGIC
    let h := h.setSize NPK_HEAP_BASE (NPK_HEAP_PAGE - HEAP_HEADER)
    let h := h.setFree NPK_HEAP_BASE 1
    let h := h.setNext NPK_HEAP_BASE 0
    let h := h.setPrev NPK_HEAP_BASE 0
    { h with free := h.size NPK_HEAP_BASE, ready := true }

def linkLast (h : Heap) (tail : ℕ) : Option Heap :=
  if h.head = 0 then some ({ h with head := tail }.addFree (h.size tail))
  else
    match h.lastBlock (h.mapped + 1) h.head with
    | none => none
    | some last =>
      let h := (h.setNext last tail).setPrev tail last
      some (h.addFree (h.size tail))

def appendBlock (h : Heap) (tail : ℕ) : Option Heap :=
  if !h.holds tail then none
  else
    let h := h.setMagic tail HEAP_MAGIC
    let h := h.setSize tail (sub64 (sub64 (NPK_HEAP_BASE + h.mapped) tail) HEAP_HEADER)
    let h := h.setFree tail 1
    let h := h.setNext tail 0
    let h := h.setPrev tail 0
    h.linkLast tail

def takeBlock (h : Heap) (block size : ℕ) : Option (ℕ × Heap) :=
  let freeBefore := h.size block
  match h.splitBlock block size with
  | none => none
  | some (split, h) =>
    let h := h.setFree block 0
    let taken := if split then sub64 freeBefore (h.size (h.next block)) else freeBefore
    some (block + HEAP_HEADER, { h with free := sub64 h.free taken })

def growAndTake (grants : ℕ → Bool) (aligned : ℕ) (h : Heap) : Option (ℕ × Heap) :=
  let wanted := add64 HEAP_HEADER aligned
  if addOverflowU64 h.mapped wanted then some (0, h)
  else
    match h.mapMore grants (h.mapped + wanted) with
    | (false, grown) => some (0, grown)
    | (true, grown) =>
      match grown.appendBlock (NPK_HEAP_BASE + h.mapped) with
      | none => none
      | some grown => grown.takeBlock (NPK_HEAP_BASE + h.mapped) aligned

def kmalloc (grants : ℕ → Bool) (size : ℕ) (h : Heap) : Option (ℕ × Heap) :=
  if !h.ready || size = 0 then some (0, h)
  else
    let aligned := alignUpU64 size NPK_HEAP_ALIGNMENT
    if aligned = 0 then some (0, h)
    else
      match h.findFree aligned (h.mapped + 1) h.head with
      | none => none
      | some block =>
        if block ≠ 0 then h.takeBlock block aligned else h.growAndTake grants aligned

/-- `memset` to zero; a word at the end may be cleared in part. -/
def clear (h : Heap) (start length : ℕ) : Heap :=
  { h with
    words := fun a =>
      if start ≤ a ∧ a < start + length then
        let cleared := 256 ^ min 8 (start + length - a)
        h.words a / cleared * cleared
      else h.words a }

def kcalloc (grants : ℕ → Bool) (count size : ℕ) (h : Heap) : Option (ℕ × Heap) :=
  if count ≠ 0 && (2 ^ 64 - 1) / count < size then some (0, h)
  else
    let total := count * size % 2 ^ 64
    match h.kmalloc grants total with
    | none => none
    | some (memory, h) => some (memory, if memory ≠ 0 then h.clear memory total else h)

def kfree (pointer : ℕ) (h : Heap) : Option Heap :=
  if pointer = 0 then some h
  else if !h.pointerInHeap pointer then some h
  else
    let block := pointer - HEAP_HEADER
    if h.magic block ≠ HEAP_MAGIC || h.isFree block || h.size block = 0 then some h
    else
      let h := h.setFree block 1
      let h := h.addFree (h.size block)
      let before := h.prev block
      if before = 0 then h.mergeWithNext block
      else if !h.holds before then none
      else if h.isFree before then
        match h.mergeWithNext before with
        | none => none
        | some h => h.mergeWithNext (h.prev block)
      else h.mergeWithNext block

def validateFrom (h : Heap) : ℕ → (block previous address observed : ℕ) → Option Bool
  | 0, _, _, _, _ => none
  | fuel + 1, block, previous, address, observed =>
    if block = 0 then
      some (address == NPK_HEAP_BASE + h.mapped && observed == h.free)
    else if !h.holds block then none
    else if block ≠ address || h.magic block ≠ HEAP_MAGIC || h.prev block ≠ previous ||
        h.size block = 0 then some false
    else if NPK_HEAP_LIMIT - NPK_HEAP_BASE < h.size block ||
        addOverflowU64 address (HEAP_HEADER + h.size block) then some false
    else
      validateFrom h fuel (h.next block) block (add64 address (HEAP_HEADER + h.size block))
        (if h.isFree block then add64 observed (h.size block) else observed)

def kheapValidate (h : Heap) : Option Bool :=
  if !h.ready then some false
  else h.validateFrom (h.mapped + 1) h.head 0 NPK_HEAP_BASE 0

end Heap

end NPKernel
