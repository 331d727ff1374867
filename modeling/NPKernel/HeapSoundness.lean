import NPKernel.GuardedRuns
import NPKernel.HeapCalls

/-!
# What the heap hands out

The clients of the heap allocate, store into what they have allocated and free it.
As long as no requested size is so large that the size of its block wraps around,
every allocation is a piece of the mapped window of its own: apart from the headers
and from every other allocation, and left alone by the allocator until it is freed.
A size within 64 bytes of the end of the type that is still rounded up makes
`kmalloc` hand out a block that is far smaller than what was asked for.
-/

namespace NPKernel

open GuardedRuns LinkedSegments Block

structure Allocation where
  pointer : ℕ
  size : ℕ
  deriving DecidableEq, Repr

namespace Allocation

def stop (x : Allocation) : ℕ := x.pointer + x.size

def Apart (x y : Allocation) : Prop := x.stop ≤ y.pointer ∨ y.stop ≤ x.pointer

end Allocation

structure HeapState where
  heap : Heap
  live : List Allocation

inductive HeapEvent where
  | kmalloc (grants : ℕ → Bool) (size : ℕ)
  | kfree (pointer : ℕ)
  | store (address : ℕ) (value : Word)

inductive Heap.Listed (h : Heap) : ℕ → Prop
  | head (hhead : h.head ≠ 0) : Heap.Listed h h.head
  | next {block : ℕ} (hblock : Heap.Listed h block) (hnext : h.next block ≠ 0) :
      Heap.Listed h (h.next block)

namespace HeapState

def start (granted : Bool) (words : ℕ → ℕ) : HeapState where
  heap := Heap.kheapInit granted words
  live := []

def perform (s : HeapState) : HeapEvent → Option HeapState
  | .kmalloc grants size =>
    match s.heap.kmalloc grants size with
    | none => none
    | some (pointer, heap) =>
      some { heap := heap
             live := if pointer = 0 then s.live else ⟨pointer, size⟩ :: s.live }
  | .kfree pointer =>
    match s.heap.kfree pointer with
    | none => none
    | some heap => some { heap := heap, live := s.live.filter fun x => x.pointer ≠ pointer }
  | .store address value => some { s with heap := s.heap.setWord address value.toNat }

def Proper (s : HeapState) : HeapEvent → Prop
  | .kmalloc _ size => size < 2 ^ 64
  | .kfree pointer => ∃ x ∈ s.live, x.pointer = pointer
  | .store address _ => address % 8 = 0 ∧ ∃ x ∈ s.live, x.pointer ≤ address ∧ address < x.stop

/-- The size of the block does not wrap around, or is not rounded up at all. -/
def RoundsUp : HeapEvent → Prop
  | .kmalloc _ size => size ≤ 2 ^ 64 - 64 ∨ 2 ^ 64 - 16 < size
  | _ => True

def IsCall : HeapEvent → Prop
  | .kmalloc _ _ => True
  | .kfree _ => True
  | .store _ _ => False

/-- Every allocation is a piece of the window of its own. -/
structure Sound (s : HeapState) : Prop where
  aligned : ∀ x ∈ s.live, x.pointer % NPK_HEAP_ALIGNMENT = 0
  inside : ∀ x ∈ s.live, NPK_HEAP_BASE ≤ x.pointer ∧ x.stop ≤ NPK_HEAP_BASE + s.heap.mapped
  headers : ∀ x ∈ s.live, ∀ block, s.heap.Listed block →
    block + HEAP_HEADER ≤ x.pointer ∨ x.stop ≤ block
  apart : s.live.Pairwise Allocation.Apart

/-- The event can happen, and changes no byte of an allocation that outlives it. -/
def Spares (s : HeapState) (event : HeapEvent) : Prop :=
  ∃ next, s.perform event = some next ∧
    ∀ x ∈ s.live, x ∈ next.live → ∀ a, x.pointer ≤ a → a < x.stop →
      next.heap.words a = s.heap.words a

/-! ## The invariant -/

structure Backed (bs : List Block) (live : List Allocation) : Prop where
  block : ∀ x ∈ live, ∃ b ∈ bs, b.free = false ∧ b.body = x.pointer ∧ x.size ≤ b.size
  distinct : live.Pairwise fun x y => x.pointer ≠ y.pointer

def Linked (s : HeapState) : Prop :=
  (s.heap.ready = false ∧ s.live = []) ∨ ∃ bs, Chain s.heap bs ∧ bs ≠ [] ∧ Backed bs s.live

variable {h h' : Heap} {bs cs : List Block} {live : List Allocation} {s : HeapState}

theorem Backed.mono (hbacked : Backed bs live)
    (hmem : ∀ b ∈ bs, b.free = false → b ∈ cs) : Backed cs live := by
  refine ⟨fun x hx => ?_, hbacked.distinct⟩
  obtain ⟨b, hb, hused, hbody, hsize⟩ := hbacked.block x hx
  exact ⟨b, hmem b hb hused, hused, hbody, hsize⟩

theorem Backed.cons {x : Allocation} (hbacked : Backed bs live)
    (hkeeps : ∀ b ∈ bs, b.free = false → b ∈ cs)
    (hblock : ∃ b ∈ cs, b.free = false ∧ b.body = x.pointer ∧ x.size ≤ b.size)
    (hnew : ∀ b ∈ bs, b.free = false → b.body ≠ x.pointer) : Backed cs (x :: live) := by
  constructor
  · intro y hy
    rcases List.mem_cons.1 hy with rfl | hy
    · exact hblock
    · exact (hbacked.mono hkeeps).block y hy
  · rw [List.pairwise_cons]
    refine ⟨fun y hy heq => ?_, hbacked.distinct⟩
    obtain ⟨b, hb, hused, hbody, -⟩ := hbacked.block y hy
    exact hnew b hb hused (hbody.trans heq.symm)

theorem Backed.allocated {grants : ℕ → Bool} {pointer size : ℕ} (hbacked : Backed bs live)
    (hc : Chain h bs) (halloc : Allocated h bs grants size pointer h' cs) :
    Backed cs (if pointer = 0 then live else ⟨pointer, size⟩ :: live) := by
  have hmem : ∀ b ∈ bs, b.free = false → b ∈ cs := fun b hb hused =>
    (halloc.keeps hc b hb hused).1
  split
  · exact hbacked.mono hmem
  next hnull =>
    obtain ⟨b, hb, hused, hbody, hsize, hnew⟩ := halloc.block hc hnull
    exact hbacked.cons hmem ⟨b, hb, hused, hbody, hsize⟩ hnew

/-- The allocations that stay when a block is freed have other blocks, which
freeing does not touch. -/
theorem Backed.others {pre post : List Block} {b : Block} (hbacked : Backed (pre ++ b :: post) live)
    (hc : Chain h (pre ++ b :: post))
    (hmerges : Merges (h.released b) (pre ++ b.unused :: post) h' cs) {x : Allocation}
    (hx : x ∈ live) (hne : x.pointer ≠ b.body) :
    ∃ c ∈ cs, c.free = false ∧ c.body = x.pointer ∧ x.size ≤ c.size ∧
      ∀ a, c.body ≤ a → a < c.stop → h'.words a = h.words a := by
  obtain ⟨c, hcm, hcused, hcbody, hcsize⟩ := hbacked.block x hx
  have hcb : c ≠ b := by
    rintro rfl
    exact hne hcbody.symm
  obtain ⟨hmid, hsame⟩ := released_keeps hc hcm hcb
  obtain ⟨hmem, hsame'⟩ := hmerges.keeps hc.released c hmid hcused
  exact ⟨c, hmem, hcused, hcbody, hcsize, fun a hge hlt =>
    (hsame' a hge hlt).trans (hsame a hge hlt)⟩

theorem Backed.freed {pre post : List Block} {b : Block} (hbacked : Backed (pre ++ b :: post) live)
    (hc : Chain h (pre ++ b :: post))
    (hmerges : Merges (h.released b) (pre ++ b.unused :: post) h' cs) :
    Backed cs (live.filter fun x => x.pointer ≠ b.body) := by
  refine ⟨fun x hx => ?_, hbacked.distinct.filter _⟩
  obtain ⟨hlive, hne⟩ := List.mem_filter.1 hx
  obtain ⟨c, hcm, hcused, hcbody, hcsize, -⟩ := hbacked.others hc hmerges hlive (by simpa using hne)
  exact ⟨c, hcm, hcused, hcbody, hcsize⟩

theorem Backed.outside {x : Allocation} {a : ℕ} (hbacked : Backed bs live) (hc : Chain h bs)
    (hx : x ∈ live) (hge : x.pointer ≤ a) (hlt : a < x.stop) : ∀ c ∈ bs, ¬c.InHeader a := by
  obtain ⟨b, hb, hused, hbody, hsize⟩ := hbacked.block x hx
  rintro c hcm ⟨hca, hca'⟩
  have hapart := hc.apart hb hcm
  simp only [Allocation.stop, Block.stop, Block.body] at *
  rcases hapart with rfl | hbefore | hbehind <;> omega

theorem listed_block (hc : Chain h bs) {block : ℕ} (hlisted : h.Listed block) :
    ∃ b ∈ bs, b.addr = block := by
  induction hlisted with
  | head hhead =>
    rw [hc.head] at hhead ⊢
    rcases first_eq_or_mem Block.addr 0 bs with ⟨hzero, -⟩ | ⟨b, hb, hfirst⟩
    · exact absurd hzero hhead
    · exact ⟨b, hb, hfirst.symm⟩
  | next hblock hnext ih =>
    obtain ⟨b, hb, rfl⟩ := ih
    obtain ⟨pre, post, rfl⟩ := List.append_of_mem hb
    rw [hc.next_eq] at hnext ⊢
    rcases first_eq_or_mem Block.addr 0 post with ⟨hzero, -⟩ | ⟨c, hcm, hfirst⟩
    · exact absurd hzero hnext
    · exact ⟨c, by simp [hcm], hfirst.symm⟩

theorem sound_of_linked (hs : s.Linked) : s.Sound := by
  have hsizes := heap_sizes
  rcases hs with ⟨-, hlive⟩ | ⟨bs, hc, -, hbacked⟩
  · constructor <;> simp [hlive]
  · have hplace : ∀ x ∈ s.live, ∃ b ∈ bs, b.body = x.pointer ∧ x.stop ≤ b.stop := by
      intro x hx
      obtain ⟨b, hb, -, hbody, hsize⟩ := hbacked.block x hx
      refine ⟨b, hb, hbody, ?_⟩
      simp only [Allocation.stop, Block.stop, Block.body] at *
      omega
    refine ⟨fun x hx => ?_, fun x hx => ?_, fun x hx block hlisted => ?_, ?_⟩
    · obtain ⟨b, hb, hbody, -⟩ := hplace x hx
      have haligned := (hc.inside b hb).aligned
      rw [heap_sizes.2.1] at haligned ⊢
      simp only [Block.body] at hbody
      omega
    · obtain ⟨b, hb, hbody, hstop⟩ := hplace x hx
      have hlower := (hc.inside b hb).lower
      have hupper := (hc.inside b hb).upper
      simp only [Block.body] at hbody
      omega
    · obtain ⟨b, hb, hbody, hstop⟩ := hplace x hx
      obtain ⟨c, hcm, rfl⟩ := listed_block hc hlisted
      have hapart := hc.apart hb hcm
      simp only [Block.body, Block.stop] at *
      rcases hapart with rfl | hbefore | hbehind
      · left
        omega
      · right
        omega
      · left
        omega
    · refine hbacked.distinct.imp_of_mem fun {x y} hx hy hne => ?_
      obtain ⟨b, hb, hbody, hstop⟩ := hplace x hx
      obtain ⟨c, hcm, hcbody, hcstop⟩ := hplace y hy
      rcases hc.apart hb hcm with rfl | hbefore | hbehind
      · exact absurd (hbody.symm.trans hcbody) hne
      · left
        simp only [Block.body] at hcbody
        omega
      · right
        simp only [Block.body] at hbody
        omega

/-! ## One event -/

theorem linked_start (granted : Bool) (words : ℕ → ℕ) : (start granted words).Linked := by
  cases granted with
  | false => exact .inl ⟨rfl, rfl⟩
  | true =>
    refine .inr ⟨_, kheapInit_chain words, by simp, ?_⟩
    constructor <;> simp [start]

theorem kmalloc_spares {grants : ℕ → Bool} {size : ℕ} (hs : s.Linked)
    (hsize : size ≤ 2 ^ 64 - 64 ∨ 2 ^ 64 - 16 < size) :
    s.Spares (.kmalloc grants size) ∧
      ∀ next, s.perform (.kmalloc grants size) = some next → next.Linked := by
  rcases hs with ⟨hready, hlive⟩ | ⟨bs, hc, hne, hbacked⟩
  · have hrefused : s.heap.kmalloc grants size = some (0, s.heap) := by
      simp [Heap.kmalloc, hready]
    have hperform : s.perform (.kmalloc grants size) = some s := by
      simp [perform, hrefused]
    refine ⟨⟨s, hperform, fun _ _ _ _ _ _ => rfl⟩, fun next hnext => ?_⟩
    obtain rfl := Option.some.inj (hperform.symm.trans hnext)
    exact .inl ⟨hready, hlive⟩
  · obtain ⟨pointer, h', cs, hkmalloc, halloc⟩ := kmalloc_allocated hc hne grants hsize
    have hkeeps := halloc.keeps hc
    have hperform : s.perform (.kmalloc grants size) =
        some ⟨h', if pointer = 0 then s.live else ⟨pointer, size⟩ :: s.live⟩ := by
      simp [perform, hkmalloc]
    refine ⟨⟨_, hperform, fun x hx _ a hge hlt => ?_⟩, fun next hnext => ?_⟩
    · obtain ⟨b, hb, hused, hbody, hsize⟩ := hbacked.block x hx
      refine (hkeeps b hb hused).2 a (by omega) ?_
      simp only [Allocation.stop, Block.stop, Block.body] at *
      omega
    · obtain rfl := Option.some.inj (hperform.symm.trans hnext)
      exact .inr ⟨cs, halloc.chain hc, halloc.ne_nil hne, hbacked.allocated hc halloc⟩

theorem kfree_spares {pointer : ℕ} (hs : s.Linked) (hlive : ∃ x ∈ s.live, x.pointer = pointer) :
    s.Spares (.kfree pointer) ∧ ∀ next, s.perform (.kfree pointer) = some next → next.Linked := by
  obtain ⟨x, hx, rfl⟩ := hlive
  rcases hs with ⟨-, hnone⟩ | ⟨bs, hc, hne, hbacked⟩
  · rw [hnone] at hx
    exact absurd hx (List.not_mem_nil)
  obtain ⟨b, hb, hused, hbody, hsize⟩ := hbacked.block x hx
  obtain ⟨pre, post, rfl⟩ := List.append_of_mem hb
  obtain ⟨h', cs, hkfree, hmerges⟩ := kfree_merges hc hused
  rw [hbody] at hkfree
  have hperform : s.perform (.kfree x.pointer) =
      some ⟨h', s.live.filter fun y => y.pointer ≠ x.pointer⟩ := by
    simp [perform, hkfree]
  refine ⟨⟨_, hperform, fun y hy hstays a hge hlt => ?_⟩, fun next hnext => ?_⟩
  · have hother : y.pointer ≠ b.body := by simpa [hbody] using (List.mem_filter.1 hstays).2
    obtain ⟨c, -, -, hcbody, hcsize, hsame⟩ := hbacked.others hc hmerges hy hother
    refine hsame a (by omega) ?_
    simp only [Allocation.stop, Block.stop, Block.body] at *
    omega
  · obtain rfl := Option.some.inj (hperform.symm.trans hnext)
    refine .inr ⟨cs, hmerges.chain hc.released, hmerges.ne_nil (by simp), ?_⟩
    rw [← hbody]
    exact hbacked.freed hc hmerges

theorem store_linked {address : ℕ} {value : Word} (hs : s.Linked)
    (hlive : ∃ x ∈ s.live, x.pointer ≤ address ∧ address < x.stop) :
    HeapState.Linked { s with heap := s.heap.setWord address value.toNat } := by
  obtain ⟨x, hx, hge, hlt⟩ := hlive
  rcases hs with ⟨-, hnone⟩ | ⟨bs, hc, hne, hbacked⟩
  · rw [hnone] at hx
    exact absurd hx (List.not_mem_nil)
  · refine .inr ⟨bs, hc.congr rfl (le_refl _) hc.page hc.window ?_, hne, hbacked⟩
    intro c hcm a hca
    refine Function.update_of_ne ?_ _ _
    rintro rfl
    exact hbacked.outside hc hx hge hlt c hcm hca

/-! ## Runs -/

theorem perform_linked {event : HeapEvent} (hs : s.Linked) (hproper : s.Proper event)
    (hrounds : RoundsUp event) :
    (∃ next, s.perform event = some next ∧ next.Linked) ∧ (IsCall event → s.Spares event) := by
  cases event with
  | kmalloc grants size =>
    obtain ⟨hspares, hlinked⟩ := @kmalloc_spares s grants size hs hrounds
    obtain ⟨next, hnext, -⟩ := id hspares
    exact ⟨⟨next, hnext, hlinked next hnext⟩, fun _ => hspares⟩
  | kfree pointer =>
    obtain ⟨hspares, hlinked⟩ := kfree_spares hs hproper
    obtain ⟨next, hnext, -⟩ := id hspares
    exact ⟨⟨next, hnext, hlinked next hnext⟩, fun _ => hspares⟩
  | store address value =>
    exact ⟨⟨_, rfl, store_linked hs hproper.2⟩, fun hcall => hcall.elim⟩

theorem allocations_sound (granted : Bool) (words : ℕ → ℕ) (events : List HeapEvent)
    (hguard : Guarded perform (fun s event => s.Proper event ∧ RoundsUp event)
      (start granted words) events) :
    ∃ last, run perform (start granted words) events = some last ∧ last.Sound ∧
      ∀ event, IsCall event → last.Proper event → RoundsUp event → last.Spares event := by
  obtain ⟨last, hrun, hlinked⟩ := total_run
    (fun s event hs hguard => (@perform_linked s event hs hguard.1 hguard.2).1)
    (linked_start granted words) hguard
  refine ⟨last, hrun, sound_of_linked hlinked, fun event hcall hproper hrounds => ?_⟩
  exact (perform_linked hlinked hproper hrounds).2 hcall

instance (s : HeapState) (event : HeapEvent) : Decidable (s.Proper event) := by
  cases event <;> unfold Proper <;> infer_instance

instance (event : HeapEvent) : Decidable (RoundsUp event) := by
  cases event <;> unfold RoundsUp <;> infer_instance

/-- One allocation, a store into it, and a second one after it is freed. -/
def sampleEvents : List HeapEvent :=
  [.kmalloc (fun _ => true) 100, .store (NPK_HEAP_BASE + HEAP_HEADER + 8) 7,
    .kmalloc (fun _ => true) 5000, .kfree (NPK_HEAP_BASE + HEAP_HEADER),
    .kmalloc (fun _ => false) 24]

theorem allocations_sound_sample :
    ∃ last, run perform (start true fun _ => 0) sampleEvents = some last ∧ last.Sound ∧
      ∀ event, IsCall event → last.Proper event → RoundsUp event → last.Spares event :=
  allocations_sound true (fun _ => 0) sampleEvents (by decide +kernel)

/-- The size of the block of a request for `2 ^ 64 - 16` bytes wraps around to 32. -/
theorem wrapped_size_unsound :
    Guarded perform Proper (start true fun _ => 0) [.kmalloc (fun _ => true) (2 ^ 64 - 16)] ∧
      ∃ last, run perform (start true fun _ => 0) [.kmalloc (fun _ => true) (2 ^ 64 - 16)] =
        some last ∧ ¬last.Sound := by
  refine ⟨by decide, ?_⟩
  have hlive : (run perform (start true fun _ => 0)
      [.kmalloc (fun _ => true) (2 ^ 64 - 16)]).map (fun s => (s.live, s.heap.mapped)) =
        some ([⟨NPK_HEAP_BASE + NPK_HEAP_PAGE + HEAP_HEADER, 2 ^ 64 - 16⟩], 2 * NPK_HEAP_PAGE) := by
    decide
  obtain ⟨last, hrun, hlast⟩ := Option.map_eq_some_iff.1 hlive
  obtain ⟨hheld, hmapped⟩ := Prod.mk.inj hlast
  refine ⟨last, hrun, fun hsound => ?_⟩
  have hinside := (hsound.inside _ (by rw [hheld]; exact List.mem_cons_self)).2
  rw [hmapped] at hinside
  exact absurd hinside (by decide)

end HeapState

end NPKernel
