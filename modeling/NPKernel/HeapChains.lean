import NPKernel.KernelHeap
import NPKernel.LinkedSegments

/-!
# The chain of heap blocks

The headers in the window form a doubly linked list of blocks in the order of
their addresses.  Each function of the allocator is described by what it does to
this list: it takes a block, splits one, appends one, merges two.
-/

namespace NPKernel

open LinkedSegments

theorem heap_sizes : HEAP_HEADER = 48 ∧ NPK_HEAP_ALIGNMENT = 16 ∧ NPK_HEAP_PAGE = 4096 ∧
    2 ^ 32 ≤ NPK_HEAP_BASE ∧ NPK_HEAP_BASE ≤ NPK_HEAP_LIMIT ∧ NPK_HEAP_LIMIT < 2 ^ 64 := by
  decide

structure Block where
  addr : ℕ
  size : ℕ
  free : Bool
  deriving DecidableEq, Repr

namespace Block

def body (b : Block) : ℕ := b.addr + HEAP_HEADER

def stop (b : Block) : ℕ := b.addr + HEAP_HEADER + b.size

theorem stop_eq (b : Block) : b.stop = b.addr + HEAP_HEADER + b.size := rfl

def Before (a b : Block) : Prop := a.stop ≤ b.addr

def InHeader (b : Block) (a : ℕ) : Prop := b.addr ≤ a ∧ a < b.addr + HEAP_HEADER

structure Header (words : ℕ → ℕ) (b : Block) (prev next : ℕ) : Prop where
  magic : words b.addr = HEAP_MAGIC
  size : words (b.addr + 8) = b.size
  free : words (b.addr + 16) % 256 = b.free.toNat
  next : words (b.addr + 24) = next
  prev : words (b.addr + 32) = prev

structure Inside (mapped : ℕ) (b : Block) : Prop where
  lower : NPK_HEAP_BASE ≤ b.addr
  upper : b.stop ≤ NPK_HEAP_BASE + mapped
  aligned : b.addr % NPK_HEAP_ALIGNMENT = 0
  sized : b.size % NPK_HEAP_ALIGNMENT = 0
  pos : 0 < b.size

theorem Header.congr {words words' : ℕ → ℕ} {b : Block} {prev next : ℕ}
    (h : Header words b prev next)
    (hsame : ∀ a, b.addr ≤ a → a < b.addr + HEAP_HEADER → words' a = words a) :
    Header words' b prev next := by
  have hsizes := heap_sizes
  refine ⟨?_, ?_, ?_, ?_, ?_⟩
  · rw [hsame _ (by omega) (by omega)]; exact h.magic
  · rw [hsame _ (by omega) (by omega)]; exact h.size
  · rw [hsame _ (by omega) (by omega)]; exact h.free
  · rw [hsame _ (by omega) (by omega)]; exact h.next
  · rw [hsame _ (by omega) (by omega)]; exact h.prev

/-- A header in which only the size and the next block are rewritten. -/
theorem Header.resized {words words' : ℕ → ℕ} {b : Block} {prev next size next' : ℕ}
    (h : Header words b prev next)
    (hsame : ∀ o, o < 48 → o ≠ 8 → o ≠ 24 → words' (b.addr + o) = words (b.addr + o))
    (hsize : words' (b.addr + 8) = size) (hnext : words' (b.addr + 24) = next') :
    Header words' { b with size := size } prev next' := by
  refine ⟨?_, hsize, ?_, hnext, ?_⟩
  · exact (hsame 0 (by omega) (by omega) (by omega)).trans h.magic
  · exact (congrArg (· % 256) (hsame 16 (by omega) (by omega) (by omega))).trans h.free
  · exact (hsame 32 (by omega) (by omega) (by omega)).trans h.prev

end Block

open Block

structure Chain (h : Heap) (bs : List Block) : Prop where
  head : h.head = first Block.addr 0 bs
  linked : Segment Block.addr (Header h.words) 0 bs 0
  sorted : bs.Pairwise Before
  inside : ∀ b ∈ bs, b.Inside h.mapped
  page : h.mapped % NPK_HEAP_PAGE = 0
  window : h.mapped ≤ NPK_HEAP_LIMIT - NPK_HEAP_BASE

namespace Chain

variable {h h' : Heap} {bs pre post : List Block} {b : Block}

theorem bounds (hc : Chain h bs) (hb : b ∈ bs) :
    NPK_HEAP_BASE ≤ b.addr ∧ b.stop = b.addr + HEAP_HEADER + b.size ∧ 0 < b.size ∧
      b.stop ≤ NPK_HEAP_BASE + h.mapped ∧ h.mapped ≤ NPK_HEAP_LIMIT - NPK_HEAP_BASE :=
  have hin := hc.inside b hb
  ⟨hin.lower, rfl, hin.pos, hin.upper, hc.window⟩

theorem pos (hc : Chain h bs) (hb : b ∈ bs) : 0 < b.addr := by
  have hsizes := heap_sizes
  have hbounds := hc.bounds hb
  omega

theorem holds (hc : Chain h bs) (hb : b ∈ bs) : h.holds b.addr = true := by
  have hbounds := hc.bounds hb
  simp only [Heap.holds, Bool.and_eq_true, decide_eq_true_eq]
  omega

theorem exchange (mid mid' : List Block) (hc : Chain h (pre ++ (mid ++ post))) (lo hi : ℕ)
    (hhead : h'.head = h.head) (hpage : h'.mapped % NPK_HEAP_PAGE = 0)
    (hwindow : h'.mapped ≤ NPK_HEAP_LIMIT - NPK_HEAP_BASE) (hmapped : h.mapped ≤ h'.mapped)
    (hpre : ∀ b ∈ pre, b.stop ≤ lo) (hpost : ∀ c ∈ post, hi ≤ c.addr)
    (hwords : ∀ a, a < lo ∨ hi ≤ a → (∀ c rest, post = c :: rest → a ≠ c.addr + 32) →
      h'.words a = h.words a) (hfirst : first Block.addr (first Block.addr 0 post) mid' =
      first Block.addr (first Block.addr 0 post) mid)
    (hmid : Segment Block.addr (Header h'.words) (last Block.addr 0 pre) mid'
      (first Block.addr 0 post)) (hback : ∀ c rest, post = c :: rest →
      h'.words (c.addr + 32) = last Block.addr (last Block.addr 0 pre) mid')
    (hsorted : mid'.Pairwise Before) (hlo : ∀ b ∈ mid', lo ≤ b.addr)
    (hhi : ∀ b ∈ mid', b.stop ≤ hi) (hinside : ∀ b ∈ mid', b.Inside h'.mapped) :
    Chain h' (pre ++ (mid' ++ post)) := by
  rw [← List.append_assoc] at hc ⊢
  have hsizes := heap_sizes
  have hapart := hc.sorted
  rw [List.pairwise_append, List.pairwise_append] at hapart
  obtain ⟨⟨hpres, -, -⟩, hposts, hcross⟩ := hapart
  have hold : ∀ b ∈ pre ++ mid ++ post, b.Inside h'.mapped := fun b hb =>
    { hc.inside b hb with
      upper := le_trans (hc.inside b hb).upper (Nat.add_le_add_left hmapped _) }
  refine ⟨?_, ?_, ?_, ?_, hpage, hwindow⟩
  · rw [hhead, hc.head]
    simp only [first_append, hfirst]
  · refine hc.linked.exchange ?_ hfirst hmid ?_ ?_
    · intro b hb p n hheaders
      refine hheaders.congr fun a hge hlt => ?_
      have hstop := hpre b hb
      simp only [Block.stop] at hstop
      refine hwords a (.inl (by omega)) fun c rest hcs => ?_
      have hbefore : b.stop ≤ c.addr := hcross b (by simp [hb]) c (by simp [hcs])
      simp only [Block.stop] at hbefore
      omega
    · intro c rest hcs p n hheaders
      have hge := hpost c (by simp [hcs])
      have hsame : ∀ o, o ≠ 32 → h'.words (c.addr + o) = h.words (c.addr + o) := by
        intro o ho
        refine hwords _ (.inr (by omega)) fun d rest' hds => ?_
        rw [hcs] at hds
        obtain ⟨rfl, -⟩ := List.cons.inj hds
        omega
      refine ⟨?_, ?_, ?_, ?_, hback c rest hcs⟩
      · rw [← Nat.add_zero c.addr, hsame 0 (by omega)]; exact hheaders.magic
      · rw [hsame 8 (by omega)]; exact hheaders.size
      · rw [hsame 16 (by omega)]; exact hheaders.free
      · rw [hsame 24 (by omega)]; exact hheaders.next
    · intro c rest hcs d hd p n hheaders
      subst hcs
      have hge := hpost d (List.mem_cons_of_mem _ hd)
      have hbefore : c.stop ≤ d.addr := (List.pairwise_cons.1 hposts).1 d hd
      simp only [Block.stop] at hbefore
      refine hheaders.congr fun a hlow hlt => ?_
      refine hwords a (.inr (by omega)) fun c' rest' hcs' => ?_
      obtain ⟨rfl, -⟩ := List.cons.inj hcs'
      omega
  · rw [List.pairwise_append, List.pairwise_append]
    refine ⟨⟨hpres, hsorted, ?_⟩, hposts, ?_⟩
    · intro a ha b hb
      exact le_trans (hpre a ha) (hlo b hb)
    · intro a ha c hc'
      rcases List.mem_append.1 ha with ha | ha
      · exact hcross a (by simp [ha]) c hc'
      · exact le_trans (hhi a ha) (hpost c hc')
  · intro b hb
    simp only [List.mem_append] at hb
    rcases hb with (hb | hb) | hb
    · exact hold b (by simp [hb])
    · exact hinside b hb
    · exact hold b (by simp [hb])

theorem forall_mem_pair {holds : Block → Prop} {b c : Block} (hb : holds b) (hc : holds c) :
    ∀ d ∈ [b, c], holds d :=
  List.forall_mem_cons.2 ⟨hb, List.forall_mem_singleton.2 hc⟩

/-! ### One block of the chain -/

section

variable (hc : Chain h (pre ++ b :: post))

include hc

theorem header : Header h.words b (last Block.addr 0 pre) (first Block.addr 0 post) :=
  (segment_append.1 hc.linked).2.1

theorem next_eq : h.next b.addr = first Block.addr 0 post :=
  hc.header.next

theorem prev_eq : h.prev b.addr = last Block.addr 0 pre :=
  hc.header.prev

theorem size_eq : h.size b.addr = b.size :=
  hc.header.size

theorem magic_eq : h.magic b.addr = HEAP_MAGIC :=
  hc.header.magic

theorem isFree_eq : h.isFree b.addr = b.free := by
  have hfree := hc.header.free
  unfold Heap.isFree
  rw [hfree]
  cases b.free <;> rfl

theorem before : ∀ a ∈ pre, a.stop ≤ b.addr := by
  intro a ha
  exact (List.pairwise_append.1 hc.sorted).2.2 a ha b List.mem_cons_self

theorem behind : ∀ c ∈ post, b.stop ≤ c.addr := by
  intro c hc'
  exact (List.pairwise_cons.1 (List.pairwise_append.1 hc.sorted).2.1).1 c hc'

end

theorem setFree (hc : Chain h (pre ++ b :: post)) (free : Bool) :
    Chain (h.setFree b.addr free.toNat) (pre ++ { b with free := free } :: post) := by
  have hsizes := heap_sizes
  have hb : b ∈ pre ++ b :: post := by simp
  have hin := hc.inside b hb
  have hold := hc.header
  have hbefore := hc.before
  have hbehind := hc.behind
  have hwords : ∀ a, a ≠ b.addr + 16 → (h.setFree b.addr free.toNat).words a = h.words a := by
    intro a ha
    simp [Heap.setFree, Heap.setWord, ha]
  refine hc.exchange [b] [{ b with free := free }] b.addr b.stop rfl hc.page hc.window (le_refl _)
    hbefore hbehind (fun a ha _ => hwords a (by simp only [Block.stop] at ha; omega)) rfl ?_ ?_
    (List.pairwise_singleton _ _) (by simp) (by simp [Block.stop]) ?_
  · refine ⟨⟨?_, ?_, ?_, ?_, ?_⟩, trivial⟩
    · rw [hwords _ (by simp)]
      exact hold.magic
    · rw [hwords _ (by simp)]
      exact hold.size
    · simp only [Heap.setFree, Heap.setWord, Function.update_self]
      cases free <;> simp
    · rw [hwords _ (by simp)]
      exact hold.next
    · rw [hwords _ (by simp)]
      exact hold.prev
  · intro c rest hcs
    have hge := hbehind c (by simp [hcs])
    subst hcs
    rw [hwords _ (by simp only [Block.stop] at hge; omega)]
    have hnext : Chain h ((pre ++ [b]) ++ c :: rest) := by simpa using hc
    have hprev := hnext.prev_eq
    simpa [last_append, Heap.prev] using hprev
  · intro b' hb'
    obtain rfl := List.mem_singleton.1 hb'
    exact { hin with upper := hin.upper }

end Chain

/-! ## Splitting, merging and appending -/

def Heap.relink (h : Heap) (post : List Block) (value : ℕ) : Heap :=
  match post with
  | [] => h
  | c :: _ => h.setPrev c.addr value

section Relink

variable {h : Heap} {post : List Block} {value : ℕ}

theorem linkBack_first (hpos : ∀ c ∈ post, 0 < c.addr)
    (hholds : ∀ c ∈ post, h.holds c.addr = true) :
    h.linkBack (first Block.addr 0 post) value = some (h.relink post value) := by
  cases post with
  | nil => rfl
  | cons c rest =>
    have hc := hpos c List.mem_cons_self
    simp only [Heap.linkBack, first_cons, Heap.relink, hholds c List.mem_cons_self, Bool.not_true,
      Bool.false_eq_true, if_false]
    rw [if_neg (by omega)]

theorem relink_words {a : ℕ} (ha : ∀ c rest, post = c :: rest → a ≠ c.addr + 32) :
    (h.relink post value).words a = h.words a := by
  cases post with
  | nil => rfl
  | cons c rest =>
    have hne := ha c rest rfl
    simp [Heap.relink, Heap.setPrev, Heap.setWord, hne]

theorem relink_back {c : Block} {rest : List Block} (hpost : post = c :: rest) :
    (h.relink post value).words (c.addr + 32) = value := by
  subst hpost
  simp [Heap.relink, Heap.setPrev, Heap.setWord]

@[simp]
theorem relink_mapped : (h.relink post value).mapped = h.mapped := by
  cases post <;> rfl

@[simp]
theorem relink_head : (h.relink post value).head = h.head := by
  cases post <;> rfl

@[simp]
theorem relink_free : (h.relink post value).free = h.free := by
  cases post <;> rfl

@[simp]
theorem relink_ready : (h.relink post value).ready = h.ready := by
  cases post <;> rfl

end Relink

def Block.front (b : Block) (size : ℕ) : Block := { b with size := size }

def Block.back (b : Block) (size : ℕ) : Block where
  addr := b.addr + HEAP_HEADER + size
  size := b.size - size - HEAP_HEADER
  free := true

theorem Block.back_addr (b : Block) (size : ℕ) :
    (b.back size).addr = b.addr + HEAP_HEADER + size := rfl

def Heap.writeHeader (h : Heap) (b : Block) (prev next : ℕ) : Heap :=
  ((((h.setMagic b.addr HEAP_MAGIC).setSize b.addr b.size).setFree b.addr 1).setNext b.addr
    next).setPrev b.addr prev

def Heap.splitted (h : Heap) (b : Block) (size : ℕ) (post : List Block) : Heap :=
  (((h.writeHeader (b.back size) b.addr (first Block.addr 0 post)).relink post
    (b.back size).addr).setNext b.addr (b.back size).addr).setSize b.addr size

section Split

variable {h : Heap} {pre post : List Block} {b : Block} {size : ℕ}

theorem add64_eq {a b : ℕ} (h : a + b < 2 ^ 64) : add64 a b = a + b := Nat.mod_eq_of_lt h

theorem sub64_eq {a b : ℕ} (hle : b ≤ a) (ha : a < 2 ^ 64) : sub64 a b = a - b := by
  unfold sub64
  rw [Nat.mod_eq_of_lt (lt_of_le_of_lt hle ha)]
  omega

theorem writeHeader_words (prev next a : ℕ) :
    (h.writeHeader b prev next).words a =
      if a = b.addr + 32 then prev
      else if a = b.addr + 24 then next
      else if a = b.addr + 16 then h.words a / 256 * 256 + 1
      else if a = b.addr + 8 then b.size
      else if a = b.addr then HEAP_MAGIC
      else h.words a := by
  simp only [Heap.writeHeader, Heap.setSize, Heap.setNext, Heap.setPrev, Heap.setFree,
    Heap.setMagic, Heap.setWord, Function.update_apply, Nat.add_left_cancel_iff, Nat.add_eq_left,
    OfNat.ofNat_ne_zero, Nat.reduceEqDiff, if_false]
  by_cases ha : a = b.addr + 16
  · rw [ha]
  · rw [if_neg ha, if_neg ha]

theorem writeHeader_outside {prev next a : ℕ} (ha : a < b.addr ∨ b.addr + HEAP_HEADER ≤ a) :
    (h.writeHeader b prev next).words a = h.words a := by
  have hsizes := heap_sizes
  rw [writeHeader_words, if_neg (by omega), if_neg (by omega), if_neg (by omega),
    if_neg (by omega), if_neg (by omega)]

theorem writeHeader_header (hfree : b.free = true) (prev next : ℕ) :
    Header (h.writeHeader b prev next).words b prev next := by
  refine ⟨?_, ?_, ?_, ?_, ?_⟩
  · rw [writeHeader_words, if_neg (by omega), if_neg (by omega), if_neg (by omega),
      if_neg (by omega), if_pos rfl]
  · rw [writeHeader_words, if_neg (by omega), if_neg (by omega), if_neg (by omega), if_pos rfl]
  · rw [writeHeader_words, if_neg (by omega), if_neg (by omega), if_pos rfl, hfree]
    change _ = 1
    omega
  · rw [writeHeader_words, if_neg (by omega), if_pos rfl]
  · rw [writeHeader_words, if_pos rfl]

/-- Outside of the block that is split, only the back link of the next block
changes. -/
theorem splitted_words {a : ℕ} (hfit : size + HEAP_HEADER ≤ b.size)
    (ha : a < b.addr ∨ b.stop ≤ a) (hpost : ∀ c rest, post = c :: rest → a ≠ c.addr + 32) :
    (h.splitted b size post).words a = h.words a := by
  have hsizes := heap_sizes
  have hstop := b.stop_eq
  have htail := b.back_addr size
  simp only [Heap.splitted, Heap.setSize, Heap.setNext, Heap.setWord]
  rw [Function.update_of_ne (by omega), Function.update_of_ne (by omega), relink_words hpost,
    writeHeader_outside (by omega)]

theorem splitted_words_within {a : ℕ} (hlt : a < b.stop) (hbehind : ∀ c ∈ post, b.stop ≤ c.addr) :
    (h.splitted b size post).words a =
      if a = b.addr + 8 then size
      else if a = b.addr + 24 then (b.back size).addr
      else (h.writeHeader (b.back size) b.addr (first Block.addr 0 post)).words a := by
  have hnot : ∀ c rest, post = c :: rest → a ≠ c.addr + 32 := by
    intro c rest hpost
    have hge := hbehind c (by simp [hpost])
    omega
  simp only [Heap.splitted, Heap.setSize, Heap.setNext, Heap.setWord, Function.update_apply,
    relink_words hnot]

@[simp]
theorem writeHeader_mapped {prev next : ℕ} : (h.writeHeader b prev next).mapped = h.mapped := rfl

@[simp]
theorem splitted_head : (h.splitted b size post).head = h.head :=
  relink_head

@[simp]
theorem splitted_mapped : (h.splitted b size post).mapped = h.mapped :=
  relink_mapped

@[simp]
theorem splitted_free : (h.splitted b size post).free = h.free :=
  relink_free

@[simp]
theorem splitted_ready : (h.splitted b size post).ready = h.ready :=
  relink_ready

theorem splitted_front (hold : Header h.words b (last Block.addr 0 pre) (first Block.addr 0 post))
    (hbehind : ∀ c ∈ post, b.stop ≤ c.addr) :
    Header (h.splitted b size post).words (b.front size) (last Block.addr 0 pre)
      (b.back size).addr := by
  have hsizes := heap_sizes
  have hstop := b.stop_eq
  have htail := b.back_addr size
  have hwithin : ∀ a, a < b.stop → _ := fun a ha =>
    @splitted_words_within h post b size a ha hbehind
  have hsame : ∀ o, o < 48 → o ≠ 8 → o ≠ 24 →
      (h.splitted b size post).words (b.addr + o) = h.words (b.addr + o) := by
    intro o ho h8 h24
    rw [hwithin _ (by omega), if_neg (by omega), if_neg (by omega), writeHeader_outside (by omega)]
  refine hold.resized hsame ((hwithin _ (by omega)).trans (if_pos rfl)) ?_
  rw [hwithin _ (by omega), if_neg (by omega), if_pos rfl]

theorem splitted_back (hbehind : ∀ c ∈ post, b.stop ≤ c.addr) (hfit : size + HEAP_HEADER ≤ b.size) :
    Header (h.splitted b size post).words (b.back size) b.addr (first Block.addr 0 post) := by
  have hsizes := heap_sizes
  have hstop := b.stop_eq
  have htail := b.back_addr size
  have hwithin : ∀ a, a < b.stop → _ := fun a ha =>
    @splitted_words_within h post b size a ha hbehind
  have hnew := @writeHeader_header h (b.back size) rfl b.addr (first Block.addr 0 post)
  refine hnew.congr fun a hge hlt => ?_
  rw [hwithin _ (by omega), if_neg (by omega), if_neg (by omega)]

theorem Chain.split (hc : Chain h (pre ++ b :: post)) (hpos : 0 < size)
    (hsized : size % NPK_HEAP_ALIGNMENT = 0)
    (hfit : size + (HEAP_HEADER + NPK_HEAP_ALIGNMENT) ≤ b.size) :
    Chain (h.splitted b size post) (pre ++ b.front size :: b.back size :: post) := by
  have hsizes := heap_sizes
  have hbm : b ∈ pre ++ b :: post := by simp
  have hbounds := hc.bounds hbm
  have haligned := (hc.inside b hbm).aligned
  have hbsized := (hc.inside b hbm).sized
  have hbehind := hc.behind
  have hfront : (b.front size).stop = b.addr + HEAP_HEADER + size := rfl
  have htail := b.back_addr size
  have htailSize : (b.back size).size = b.size - size - HEAP_HEADER := rfl
  have htailStop := (b.back size).stop_eq
  refine hc.exchange [b] [b.front size, b.back size] b.addr b.stop splitted_head
    (by simpa using hc.page) (by simpa using hc.window) (by simp) hc.before hbehind
    (fun a ha hpost => splitted_words (by omega) ha hpost) rfl ?_ ?_ ?_ ?_ ?_ ?_
  · exact ⟨splitted_front hc.header hbehind, splitted_back hbehind (by omega), trivial⟩
  · intro c rest hcs
    have hge := hbehind c (by simp [hcs])
    simp only [Heap.splitted, Heap.setSize, Heap.setNext, Heap.setWord]
    rw [Function.update_of_ne (by omega), Function.update_of_ne (by omega), relink_back hcs]
    rfl
  · have hapart : (b.front size).Before (b.back size) := by
      simp only [Before]
      omega
    simpa using hapart
  · exact forall_mem_pair (le_refl _) (by omega)
  · exact forall_mem_pair (by omega) (by omega)
  · rw [splitted_mapped]
    refine forall_mem_pair ⟨hbounds.1, by omega, haligned, hsized, hpos⟩ ?_
    rw [heap_sizes.2.1] at hsized haligned hbsized
    refine ⟨by omega, by omega, ?_, ?_, by omega⟩
    · rw [heap_sizes.2.1]
      omega
    · rw [heap_sizes.2.1]
      omega

theorem splitBlock_eq (hc : Chain h (pre ++ b :: post)) (hsize : size ≤ b.size) :
    h.splitBlock b.addr size =
      if b.size < size + (HEAP_HEADER + NPK_HEAP_ALIGNMENT) then some (false, h)
      else some (true, h.splitted b size post) := by
  have hsizes := heap_sizes
  have hbounds := hc.bounds (b := b) (by simp)
  have htail := b.back_addr size
  have hsum : add64 size (HEAP_HEADER + NPK_HEAP_ALIGNMENT) =
      size + (HEAP_HEADER + NPK_HEAP_ALIGNMENT) := add64_eq (by omega)
  unfold Heap.splitBlock
  rw [hc.size_eq, hsum]
  split
  · rfl
  next hfit =>
  have hholds : h.holds (b.back size).addr = true := by
    simp only [Heap.holds, Bool.and_eq_true, decide_eq_true_eq]
    omega
  have htail' : add64 (b.addr + HEAP_HEADER) size = (b.back size).addr := add64_eq (by omega)
  have hsize₁ : (h.setMagic (b.back size).addr HEAP_MAGIC).size b.addr = b.size := by
    simp only [Heap.setMagic, Heap.setWord, Heap.size]
    rw [Function.update_of_ne (by omega)]
    exact hc.size_eq
  have hrest : sub64 (sub64 b.size size) HEAP_HEADER = (b.back size).size := by
    rw [sub64_eq hsize (by omega), sub64_eq (by omega) (by omega)]
    rfl
  have hnext₁ : (((h.setMagic (b.back size).addr HEAP_MAGIC).setSize (b.back size).addr
      (b.back size).size).setFree (b.back size).addr 1).next b.addr =
        first Block.addr 0 post := by
    simp only [Heap.setMagic, Heap.setSize, Heap.setFree, Heap.setWord, Heap.next]
    rw [Function.update_of_ne (by omega), Function.update_of_ne (by omega),
      Function.update_of_ne (by omega)]
    exact hc.next_eq
  have hnext₂ : (h.writeHeader (b.back size) b.addr (first Block.addr 0 post)).next
      (b.back size).addr = first Block.addr 0 post :=
    (writeHeader_header rfl _ _).next
  have hlink := @linkBack_first (h.writeHeader (b.back size) b.addr (first Block.addr 0 post))
    post (b.back size).addr (fun c hcm => hc.pos (by simp [hcm]))
    (fun c hcm => hc.holds (by simp [hcm]))
  rw [Heap.writeHeader] at hnext₂ hlink
  simp only [htail', hholds, Bool.not_true, Bool.false_eq_true, if_false, hsize₁, hrest, hnext₁,
    hnext₂, hlink]
  rfl

end Split

def Block.joins (b n : Block) : Bool := n.free && n.addr == b.stop

def Block.join (b n : Block) : Block := { b with size := b.size + (HEAP_HEADER + n.size) }

def Heap.merged (h : Heap) (b n : Block) (post : List Block) : Heap :=
  (((((h.setSize b.addr (b.join n).size).addFree HEAP_HEADER).setNext b.addr
    (first Block.addr 0 post)).relink post b.addr).setMagic n.addr HEAP_FREED).setFree n.addr 1

section Merge

variable {h : Heap} {pre post : List Block} {b n : Block}

@[simp]
theorem merged_head : (h.merged b n post).head = h.head :=
  relink_head

@[simp]
theorem merged_mapped : (h.merged b n post).mapped = h.mapped :=
  relink_mapped

@[simp]
theorem merged_free : (h.merged b n post).free = add64 h.free HEAP_HEADER :=
  relink_free

@[simp]
theorem merged_ready : (h.merged b n post).ready = h.ready :=
  relink_ready

theorem merged_words {a : ℕ} (hpost : ∀ c rest, post = c :: rest → a ≠ c.addr + 32) :
    (h.merged b n post).words a =
      if a = n.addr + 16 then (h.merged b n post).words (n.addr + 16)
      else if a = n.addr then HEAP_FREED
      else if a = b.addr + 24 then first Block.addr 0 post
      else if a = b.addr + 8 then (b.join n).size
      else h.words a := by
  by_cases ha : a = n.addr + 16
  · rw [if_pos ha, ha]
  · simp only [Heap.merged, Heap.setFree, Heap.setMagic, Heap.setWord, Function.update_apply,
      relink_words hpost, if_neg ha, Heap.setNext, Heap.addFree, Heap.setSize]

theorem Chain.merge (hc : Chain h (pre ++ b :: n :: post)) (hjoins : b.joins n = true) :
    Chain (h.merged b n post) (pre ++ b.join n :: post) := by
  have hsizes := heap_sizes
  simp only [Block.joins, Bool.and_eq_true, beq_iff_eq] at hjoins
  have hadjacent := hjoins.2
  have hin := hc.inside b (by simp)
  have hbsized := hin.sized
  have hnsized := (hc.inside n (by simp)).sized
  have hupper := (hc.inside n (by simp)).upper
  have hcn : Chain h ((pre ++ [b]) ++ n :: post) := by simpa using hc
  have hbehind := hcn.behind
  have hstop := b.stop_eq
  have hnstop := n.stop_eq
  have hjoin : (b.join n).stop = b.addr + HEAP_HEADER + (b.size + (HEAP_HEADER + n.size)) := rfl
  have hjoinSize : (b.join n).size = b.size + (HEAP_HEADER + n.size) := rfl
  have hnot : ∀ a, a < n.stop → ∀ c rest, post = c :: rest → a ≠ c.addr + 32 := by
    intro a ha c rest hpost
    have hge := hbehind c (by simp [hpost])
    omega
  refine hc.exchange [b, n] [b.join n] b.addr n.stop merged_head (by simpa using hc.page)
    (by simpa using hc.window) (by simp) hc.before hbehind ?_ rfl ?_ ?_
    (List.pairwise_singleton _ _)
    (List.forall_mem_singleton.2 (le_refl _)) (List.forall_mem_singleton.2 (by omega)) ?_
  · intro a ha hpost
    rw [merged_words hpost, if_neg (by omega), if_neg (by omega), if_neg (by omega),
      if_neg (by omega)]
  · have hsame : ∀ o, o < 48 → o ≠ 8 → o ≠ 24 →
        (h.merged b n post).words (b.addr + o) = h.words (b.addr + o) := by
      intro o ho h8 h24
      rw [merged_words (hnot _ (by omega)), if_neg (by omega), if_neg (by omega),
        if_neg (by omega), if_neg (by omega)]
    refine ⟨hc.header.resized hsame ?_ ?_, trivial⟩
    · rw [merged_words (hnot _ (by omega)), if_neg (by omega), if_neg (by omega),
        if_neg (by omega), if_pos rfl]
      rfl
    · rw [merged_words (hnot _ (by omega)), if_neg (by omega), if_neg (by omega), if_pos rfl]
      rfl
  · intro c rest hcs
    have hge := hbehind c (by simp [hcs])
    simp only [Heap.merged, Heap.setFree, Heap.setMagic, Heap.setWord]
    rw [Function.update_of_ne (by omega), Function.update_of_ne (by omega), relink_back hcs]
    rfl
  · rw [merged_mapped]
    refine List.forall_mem_singleton.2 ⟨hin.lower, by omega, hin.aligned, ?_, by omega⟩
    rw [heap_sizes.2.1] at hbsized hnsized ⊢
    omega

theorem mergeWithNext_eq (hc : Chain h (pre ++ b :: post)) :
    h.mergeWithNext b.addr =
      some (match post with
        | [] => h
        | n :: rest => if b.joins n then h.merged b n rest else h) := by
  unfold Heap.mergeWithNext
  rw [hc.next_eq]
  cases post with
  | nil => rfl
  | cons n rest =>
    have hsizes := heap_sizes
    have hbehind := hc.behind n List.mem_cons_self
    have hcn : Chain h ((pre ++ [b]) ++ n :: rest) := by simpa using hc
    have hnm : n ∈ pre ++ [b] ++ n :: rest := by simp
    have hbounds := hc.bounds (show b ∈ pre ++ b :: n :: rest by simp)
    have hnbounds := hcn.bounds hnm
    have hexpected : add64 (b.addr + HEAP_HEADER) b.size = b.stop := add64_eq (by omega)
    have hsum : add64 b.size (HEAP_HEADER + n.size) = (b.join n).size := add64_eq (by omega)
    have hnext₁ : ((h.setSize b.addr (b.join n).size).addFree HEAP_HEADER).next n.addr =
        first Block.addr 0 rest := by
      simp only [Heap.addFree, Heap.setSize, Heap.setWord, Heap.next]
      rw [Function.update_of_ne (by omega)]
      exact hcn.next_eq
    have hnext₂ : (((h.setSize b.addr (b.join n).size).addFree HEAP_HEADER).setNext b.addr
        (first Block.addr 0 rest)).next b.addr = first Block.addr 0 rest := by
      simp [Heap.setNext, Heap.setWord, Heap.next]
    have hlink := @linkBack_first (((h.setSize b.addr (b.join n).size).addFree
      HEAP_HEADER).setNext b.addr (first Block.addr 0 rest)) rest b.addr
      (fun c hcm => hcn.pos (by simp [hcm])) (fun c hcm => hcn.holds (by simp [hcm]))
    have hchecks : (n.addr ≠ b.stop || HEAP_MAGIC ≠ HEAP_MAGIC) = !(n.addr == b.stop) := by
      simp [beq_eq_decide]
    simp only [first_cons, hcn.holds hnm, hcn.isFree_eq,
      hcn.magic_eq, hcn.size_eq, hc.size_eq, hexpected, hsum, Bool.not_true, Bool.false_eq_true,
      if_false, Block.joins, hnext₁, hnext₂, hlink, hchecks]
    rw [if_neg (by omega)]
    by_cases hfree : n.free = true
    · by_cases hadjacent : (n.addr == b.stop) = true
      · simp only [hfree, hadjacent, Bool.not_true, Bool.false_eq_true, if_false, Bool.and_self,
          if_true, Heap.merged]
      · simp only [hfree, hadjacent, Bool.not_true, Bool.false_eq_true, if_false, Bool.not_false,
          if_true, Bool.and_false]
    · simp only [hfree, Bool.not_false, if_true, Bool.false_and, Bool.false_eq_true, if_false]

end Merge

def Heap.appended (h : Heap) (l b : Block) : Heap :=
  (((h.writeHeader b 0 0).setNext l.addr b.addr).setPrev b.addr l.addr).addFree b.size

section Append

variable {h : Heap} {bs pre : List Block} {l b : Block}

theorem appended_words (a : ℕ) :
    (h.appended l b).words a =
      if a = b.addr + 32 then l.addr
      else if a = l.addr + 24 then b.addr
      else (h.writeHeader b 0 0).words a := by
  simp only [Heap.appended, Heap.addFree, Heap.setPrev, Heap.setNext, Heap.setWord,
    Function.update_apply]

theorem Chain.append (hc : Chain h (pre ++ [l])) (hapart : l.stop ≤ b.addr)
    (hin : b.Inside h.mapped) (hfree : b.free = true) :
    Chain (h.appended l b) (pre ++ [l, b]) := by
  have hsizes := heap_sizes
  have hstop := l.stop_eq
  have hbstop := b.stop_eq
  have hold := hc.header
  have hnew := @writeHeader_header h b hfree 0 0
  refine hc.exchange [l] [l, b] l.addr b.stop rfl hc.page hc.window (le_refl _) hc.before (by simp)
    ?_ rfl ?_ (by simp) ?_ (forall_mem_pair (by omega) (by omega))
    (forall_mem_pair (by omega) (by omega)) (forall_mem_pair (hc.inside l (by simp)) hin)
  · intro a ha _
    rw [appended_words, if_neg (by omega), if_neg (by omega), writeHeader_outside (by omega)]
  · have hsame : ∀ o, o < 48 → o ≠ 24 →
        (h.appended l b).words (l.addr + o) = h.words (l.addr + o) := by
      intro o ho h24
      rw [appended_words, if_neg (by omega), if_neg (by omega), writeHeader_outside (by omega)]
    have hsame' : ∀ o, o < 32 → (h.appended l b).words (b.addr + o) =
        (h.writeHeader b 0 0).words (b.addr + o) := by
      intro o ho
      rw [appended_words, if_neg (by omega), if_neg (by omega)]
    refine ⟨hold.resized (fun o ho _ => hsame o ho) ?_ ?_, ⟨?_, ?_, ?_, ?_, ?_⟩, trivial⟩
    · exact (hsame 8 (by omega) (by omega)).trans hold.size
    · rw [appended_words, if_neg (by omega), if_pos rfl]
      rfl
    · exact (hsame' 0 (by omega)).trans hnew.magic
    · exact (hsame' 8 (by omega)).trans hnew.size
    · exact (congrArg (· % 256) (hsame' 16 (by omega))).trans hnew.free
    · exact (hsame' 24 (by omega)).trans hnew.next
    · rw [appended_words, if_pos rfl]
  · simpa [Before] using hapart

end Append

/-! ## Walking along the chain -/

section Walks

variable {h : Heap} {bs pre post : List Block} {l b : Block} {size fuel : ℕ}

/-- Blocks one behind the other between two addresses are fewer than the bytes
between them. -/
theorem length_le_of_sorted {lo hi : ℕ} (hsorted : bs.Pairwise Before)
    (hlo : ∀ b ∈ bs, lo ≤ b.addr) (hhi : ∀ b ∈ bs, b.stop ≤ hi) : bs.length ≤ hi - lo := by
  have hsizes := heap_sizes
  induction bs generalizing lo with
  | nil => simp
  | cons b bs ih =>
    rw [List.pairwise_cons] at hsorted
    have hrest := ih hsorted.2 hsorted.1 fun c hc => hhi c (List.mem_cons_of_mem _ hc)
    have hb := hlo b List.mem_cons_self
    have hb' := hhi b List.mem_cons_self
    simp only [Block.stop, List.length_cons] at *
    omega

theorem Chain.length_le (hc : Chain h bs) : bs.length ≤ h.mapped := by
  have hlength := length_le_of_sorted hc.sorted (fun b hb => (hc.inside b hb).lower)
    fun b hb => (hc.inside b hb).upper
  omega

theorem findFree_from (hc : Chain h (pre ++ post)) (hfuel : post.length < fuel) :
    h.findFree size fuel (first Block.addr 0 post) =
      some (match post.find? fun b => b.free && size ≤ b.size with
        | none => 0
        | some b => b.addr) := by
  induction post generalizing pre fuel with
  | nil =>
    obtain ⟨fuel, rfl⟩ := Nat.exists_eq_add_of_lt hfuel
    rfl
  | cons b post ih =>
    obtain ⟨fuel, rfl⟩ : ∃ rest, fuel = rest + 1 := Nat.exists_eq_succ_of_ne_zero (by omega)
    have hpos := hc.pos (show b ∈ pre ++ b :: post by simp)
    have hholds := hc.holds (show b ∈ pre ++ b :: post by simp)
    have hnext : Chain h ((pre ++ [b]) ++ post) := by simpa using hc
    have hrest := @ih (pre ++ [b]) fuel hnext (by simpa using hfuel)
    simp only [first_cons, Heap.findFree, hholds, hc.isFree_eq, hc.size_eq, hc.next_eq, hrest,
      List.find?_cons, Bool.not_true, Bool.false_eq_true, if_false]
    rw [if_neg (by omega)]
    cases hfits : b.free && decide (size ≤ b.size) <;> rfl

theorem Chain.findFree (hc : Chain h bs) :
    h.findFree size (h.mapped + 1) h.head =
      some (match bs.find? fun b => b.free && size ≤ b.size with
        | none => 0
        | some b => b.addr) := by
  have hlength := hc.length_le
  rw [hc.head]
  exact @findFree_from h [] bs size (h.mapped + 1) hc (by omega)

theorem lastBlock_from (hc : Chain h (pre ++ b :: post)) (hfuel : post.length < fuel) :
    h.lastBlock fuel b.addr = some (last Block.addr b.addr post) := by
  induction post generalizing pre b fuel with
  | nil =>
    obtain ⟨fuel, rfl⟩ : ∃ rest, fuel = rest + 1 := Nat.exists_eq_succ_of_ne_zero (by omega)
    have hholds := hc.holds (show b ∈ pre ++ [b] by simp)
    simp [Heap.lastBlock, hholds, hc.next_eq]
  | cons c post ih =>
    obtain ⟨fuel, rfl⟩ : ∃ rest, fuel = rest + 1 := Nat.exists_eq_succ_of_ne_zero (by omega)
    have hpos := hc.pos (show c ∈ pre ++ b :: c :: post by simp)
    have hholds := hc.holds (show b ∈ pre ++ b :: c :: post by simp)
    have hnext : Chain h ((pre ++ [b]) ++ c :: post) := by simpa using hc
    have hrest := @ih (pre ++ [b]) c fuel hnext (by simpa using hfuel)
    simp only [Heap.lastBlock, hholds, hc.next_eq, first_cons, hrest, Bool.not_true,
      Bool.false_eq_true, if_false, last_cons]
    rw [if_neg (by omega)]

theorem Chain.lastBlock (hc : Chain h (pre ++ [l])) :
    h.lastBlock (h.mapped + 1) h.head = some l.addr := by
  have hlength := hc.length_le
  rw [hc.head]
  cases pre with
  | nil => exact @lastBlock_from h [] [] l (h.mapped + 1) hc (by simp)
  | cons b pre =>
    have hlast := @lastBlock_from h [] (pre ++ [l]) b (h.mapped + 1) hc
      (by simp at hlength ⊢; omega)
    simpa [last_append] using hlast

end Walks

end NPKernel
