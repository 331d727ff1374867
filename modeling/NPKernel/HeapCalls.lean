import NPKernel.HeapChains

/-!
# The calls of the heap

What `kmalloc` and `kfree` do to a heap that is a chain of blocks: an allocation
takes a free block, whole or its front part, after the window has grown by a block
where no free block is large enough; a call that fails leaves the chain as it is,
possibly with pages mapped behind it.  Freeing marks a block and merges it with
its neighbours.  None of this touches the bytes of the other blocks in use.
-/

namespace NPKernel

open LinkedSegments Block

variable {h h' : Heap} {bs cs pre post : List Block} {l b n : Block} {size : ℕ}

/-! ## Words that do not matter -/

namespace Chain

theorem congr (hc : Chain h bs) (hhead : h'.head = h.head) (hmapped : h.mapped ≤ h'.mapped)
    (hpage : h'.mapped % NPK_HEAP_PAGE = 0) (hwindow : h'.mapped ≤ NPK_HEAP_LIMIT - NPK_HEAP_BASE)
    (hwords : ∀ c ∈ bs, ∀ a, c.InHeader a → h'.words a = h.words a) : Chain h' bs := by
  refine ⟨hhead.trans hc.head, ?_, hc.sorted, ?_, hpage, hwindow⟩
  · refine hc.linked.mono fun c hcm p n hheader => ?_
    exact hheader.congr fun a hge hlt => hwords c hcm a ⟨hge, hlt⟩
  · intro c hcm
    exact { hc.inside c hcm with
      upper := le_trans (hc.inside c hcm).upper (Nat.add_le_add_left hmapped _) }

variable {c d : Block}

theorem apart (hc : Chain h bs) (hcm : c ∈ bs) (hdm : d ∈ bs) :
    c = d ∨ c.stop ≤ d.addr ∨ d.stop ≤ c.addr := by
  obtain ⟨pre, post, rfl⟩ := List.append_of_mem hcm
  rcases List.mem_append.1 hdm with hpre | hrest
  · exact .inr (.inr (hc.before d hpre))
  · rcases List.mem_cons.1 hrest with rfl | hpost
    · exact .inl rfl
    · exact .inr (.inl (hc.behind d hpost))

theorem addr_inj (hc : Chain h bs) (hcm : c ∈ bs) (hdm : d ∈ bs)
    (haddr : c.addr = d.addr) : c = d := by
  have hsizes := heap_sizes
  rcases hc.apart hcm hdm with heq | hbefore | hbehind
  · exact heq
  · simp only [Block.stop] at hbefore
    omega
  · simp only [Block.stop] at hbehind
    omega

end Chain

/-! ## Blocks in use -/

def Keeps (h : Heap) (bs : List Block) (h' : Heap) (cs : List Block) : Prop :=
  ∀ b ∈ bs, b.free = false → b ∈ cs ∧ ∀ a, b.body ≤ a → a < b.stop → h'.words a = h.words a

theorem Keeps.trans {h'' : Heap} {ds : List Block} (hfirst : Keeps h bs h' cs)
    (hsecond : Keeps h' cs h'' ds) : Keeps h bs h'' ds := by
  intro b hb hused
  obtain ⟨hmem, hwords⟩ := hfirst b hb hused
  obtain ⟨hmem', hwords'⟩ := hsecond b hmem hused
  exact ⟨hmem', fun a hge hlt => (hwords' a hge hlt).trans (hwords a hge hlt)⟩

theorem mem_of_used (mid : List Block) (hfree : b.free = true) (c : Block)
    (hcm : c ∈ pre ++ b :: post) (hused : c.free = false) : c ∈ pre ++ (mid ++ post) := by
  have hne : c ≠ b := by
    rintro rfl
    simp [hfree] at hused
  simp only [List.mem_append, List.mem_cons] at hcm ⊢
  tauto

theorem Keeps.of_words (hc : Chain h bs) (hmem : ∀ b ∈ bs, b.free = false → b ∈ cs)
    (hwords : ∀ a, a < NPK_HEAP_BASE + h.mapped →
      (∀ c ∈ bs, a < c.addr ∨ c.addr + HEAP_HEADER ≤ a) →
      (∀ c ∈ bs, c.free = true → a < c.addr ∨ c.stop ≤ a) → h'.words a = h.words a) :
    Keeps h bs h' cs := by
  have hsizes := heap_sizes
  intro b hb hused
  refine ⟨hmem b hb hused, fun a hge hlt => ?_⟩
  have hupper := (hc.inside b hb).upper
  refine hwords a (by omega) ?_ ?_
  · intro c hcm
    simp only [Block.body, Block.stop] at *
    rcases hc.apart hb hcm with rfl | hbefore | hbehind
    · omega
    · simp only [Block.stop] at hbefore
      omega
    · simp only [Block.stop] at hbehind
      omega
  · intro c hcm hfree
    simp only [Block.body, Block.stop] at *
    rcases hc.apart hb hcm with rfl | hbefore | hbehind
    · rw [hused] at hfree
      exact absurd hfree (by decide)
    · simp only [Block.stop] at hbefore
      omega
    · simp only [Block.stop] at hbehind
      omega

/-! ## Growth -/

def Heap.stretched (h : Heap) (pages : ℕ) : Heap :=
  { h with
    words := fun a =>
      if NPK_HEAP_BASE + h.mapped ≤ a ∧ a < NPK_HEAP_BASE + h.mapped + pages * NPK_HEAP_PAGE then 0
      else h.words a
    mapped := h.mapped + pages * NPK_HEAP_PAGE }

theorem stretched_words (pages a : ℕ) :
    (h.stretched pages).words a =
      if NPK_HEAP_BASE + h.mapped ≤ a ∧ a < NPK_HEAP_BASE + h.mapped + pages * NPK_HEAP_PAGE then 0
      else h.words a := rfl

variable {pages required bytes pointer : ℕ}

theorem stretched_ext (hwords : ∀ a, h'.words a = (h.stretched pages).words a)
    (hhead : h'.head = h.head) (hmapped : h'.mapped = h.mapped + pages * NPK_HEAP_PAGE)
    (hfree : h'.free = h.free) (hready : h'.ready = h.ready) : h' = h.stretched pages := by
  cases h'
  simp only [Heap.stretched, Heap.mk.injEq]
  exact ⟨funext hwords, hhead, hmapped, hfree, hready⟩

theorem stretched_zero : h.stretched 0 = h := by
  refine (stretched_ext (fun a => ?_) rfl (by simp) rfl rfl).symm
  rw [stretched_words, if_neg (by omega)]

theorem grow_stretched (pages : ℕ) : h.grow.stretched pages = h.stretched (pages + 1) := by
  have hpages : (pages + 1) * NPK_HEAP_PAGE = pages * NPK_HEAP_PAGE + NPK_HEAP_PAGE :=
    Nat.succ_mul _ _
  have hmapped : h.grow.mapped = h.mapped + NPK_HEAP_PAGE := rfl
  have hgrow : ∀ a, h.grow.words a =
      if NPK_HEAP_BASE + h.mapped ≤ a ∧ a < NPK_HEAP_BASE + h.mapped + NPK_HEAP_PAGE then 0
      else h.words a := fun _ => rfl
  refine stretched_ext (fun a => ?_) rfl ?_ rfl rfl
  · rw [stretched_words, stretched_words, hgrow]
    by_cases hnew : NPK_HEAP_BASE + h.mapped ≤ a ∧
        a < NPK_HEAP_BASE + h.mapped + (pages + 1) * NPK_HEAP_PAGE
    · rw [if_pos hnew]
      by_cases hfirst : a < NPK_HEAP_BASE + h.mapped + NPK_HEAP_PAGE
      · rw [if_neg (by omega), if_pos ⟨hnew.1, hfirst⟩]
      · rw [if_pos (by omega)]
    · rw [if_neg hnew, if_neg (by omega), if_neg (by omega)]
  · simp only [Heap.stretched, hmapped]
    omega

theorem Chain.stretched (hc : Chain h bs)
    (hwindow : h.mapped + pages * NPK_HEAP_PAGE ≤ NPK_HEAP_LIMIT - NPK_HEAP_BASE) :
    Chain (h.stretched pages) bs := by
  refine hc.congr rfl (Nat.le_add_right _ _) ?_ hwindow ?_
  · have hpage := hc.page
    simp only [Heap.stretched, Nat.add_mul_mod_self_right, hpage]
  · rintro c hcm a ⟨-, hlt⟩
    have hupper := (hc.inside c hcm).upper
    simp only [Block.stop] at hupper
    exact if_neg (by omega)

theorem Keeps.stretched (hc : Chain h bs) (pages : ℕ) : Keeps h bs (h.stretched pages) bs :=
  .of_words hc (fun _ hb _ => hb) fun a hlt _ _ => if_neg (by omega)

def Heap.pagesTo (h : Heap) (required : ℕ) : ℕ := (required - h.mapped) / NPK_HEAP_PAGE

theorem pagesTo_eq_zero (hle : required ≤ h.mapped) : h.pagesTo required = 0 := by
  rw [Heap.pagesTo, Nat.sub_eq_zero_of_le hle, Nat.zero_div]

theorem pagesTo_grow (hmapped : h.mapped % NPK_HEAP_PAGE = 0)
    (hrequired : required % NPK_HEAP_PAGE = 0) (hlt : h.mapped < required) :
    h.pagesTo required = h.grow.pagesTo required + 1 := by
  have hgrow : h.grow.mapped = h.mapped + NPK_HEAP_PAGE := rfl
  rw [Heap.pagesTo, Heap.pagesTo, hgrow]
  rw [heap_sizes.2.2.1] at hmapped hrequired ⊢
  omega

theorem mapPages_eq (grants : ℕ → Bool)
    (hmapped : h.mapped % NPK_HEAP_PAGE = 0) (hrequired : required % NPK_HEAP_PAGE = 0)
    (hpages : h.pagesTo required ≤ pages) :
    ∃ k ≤ h.pagesTo required,
      Heap.mapPages grants required pages h = (k == h.pagesTo required, h.stretched k) ∧
        (∀ j < k, grants j = true) ∧ (k < h.pagesTo required → grants k = false) := by
  induction pages generalizing h grants with
  | zero =>
    refine ⟨0, Nat.zero_le _, ?_, by simp, by omega⟩
    rw [stretched_zero, show h.pagesTo required = 0 by omega]
    rfl
  | succ pages ih =>
    rw [Heap.mapPages]
    by_cases hmore : h.mapped < required
    · rw [if_pos hmore]
      have hneeded := pagesTo_grow hmapped hrequired hmore
      have hgrown : h.grow.mapped % NPK_HEAP_PAGE = 0 := by
        rw [show h.grow.mapped = h.mapped + NPK_HEAP_PAGE from rfl, Nat.add_mod_right]
        exact hmapped
      by_cases hgrant : grants 0 = true
      · rw [if_pos hgrant]
        obtain ⟨k, hk, hmap, hbefore, hrefused⟩ :=
          @ih h.grow (fun k => grants (k + 1)) hgrown (by omega)
        refine ⟨k + 1, by omega, ?_, ?_, fun hlt => hrefused (by omega)⟩
        · have hall : (k == h.grow.pagesTo required) = (k + 1 == h.grow.pagesTo required + 1) := by
            rw [Bool.eq_iff_iff, beq_iff_eq, beq_iff_eq, Nat.add_right_cancel_iff]
          rw [hmap, grow_stretched, hneeded, hall]
        · intro j hj
          cases j with
          | zero => exact hgrant
          | succ j => exact hbefore j (by omega)
      · rw [if_neg hgrant]
        refine ⟨0, Nat.zero_le _, ?_, by simp, fun _ => by simpa using hgrant⟩
        rw [stretched_zero, hneeded]
        simp
    · rw [if_neg hmore]
      have hneeded := pagesTo_eq_zero (Nat.le_of_not_lt hmore)
      refine ⟨0, Nat.zero_le _, ?_, by simp, by omega⟩
      rw [stretched_zero, hneeded]
      rfl

def Heap.newBlock (h : Heap) (pages : ℕ) : Block where
  addr := NPK_HEAP_BASE + h.mapped
  size := pages * NPK_HEAP_PAGE - HEAP_HEADER
  free := true

inductive Grown (h : Heap) : List Block → Heap → List Block → Prop
  | intro (pre : List Block) (l : Block) (pages : ℕ) (hpages : 0 < pages)
      (hwindow : h.mapped + pages * NPK_HEAP_PAGE ≤ NPK_HEAP_LIMIT - NPK_HEAP_BASE) :
      Grown h (pre ++ [l]) ((h.stretched pages).appended l (h.newBlock pages))
        (pre ++ [l, h.newBlock pages])

theorem newBlock_inside (hc : Chain h bs) (hpages : 0 < pages) :
    (h.newBlock pages).Inside (h.stretched pages).mapped := by
  obtain ⟨hheader, halign, hpage, -⟩ := heap_sizes
  have hbase : NPK_HEAP_BASE % 16 = 0 := by decide
  have hmapped := hc.page
  have haddr : (h.newBlock pages).addr = NPK_HEAP_BASE + h.mapped := rfl
  have hsize : (h.newBlock pages).size = pages * NPK_HEAP_PAGE - HEAP_HEADER := rfl
  have hstop := (h.newBlock pages).stop_eq
  have hstretched : (h.stretched pages).mapped = h.mapped + pages * NPK_HEAP_PAGE := rfl
  rw [hpage] at hmapped hsize hstretched
  refine ⟨by omega, by omega, ?_, ?_, by omega⟩
  · rw [haddr, halign]
    omega
  · rw [hsize, halign, hheader]
    omega

theorem Grown.chain (hc : Chain h bs) (hgrown : Grown h bs h' cs) : Chain h' cs := by
  cases hgrown with
  | intro pre l pages hpages hwindow =>
    refine (hc.stretched hwindow).append ?_ (newBlock_inside hc hpages) rfl
    exact (hc.inside l (by simp)).upper

theorem Grown.keeps (hc : Chain h bs) (hgrown : Grown h bs h' cs) : Keeps h bs h' cs := by
  have hsizes := heap_sizes
  cases hgrown with
  | intro pre l pages hpages hwindow =>
    have haddr : (h.newBlock pages).addr = NPK_HEAP_BASE + h.mapped := rfl
    refine .of_words hc (fun b hb _ => ?_) fun a hlt hheaders _ => ?_
    · have hb' := List.mem_append.1 hb
      simp only [List.mem_append, List.mem_cons] at hb' ⊢
      tauto
    · have hl := hheaders l (by simp)
      rw [appended_words, if_neg (by omega), if_neg (by omega), writeHeader_outside (by omega),
        stretched_words, if_neg (by omega)]

theorem appendBlock_eq {pages : ℕ} (hc : Chain h (pre ++ [l])) (hpages : 0 < pages)
    (hwindow : h.mapped + pages * NPK_HEAP_PAGE ≤ NPK_HEAP_LIMIT - NPK_HEAP_BASE) :
    (h.stretched pages).appendBlock (NPK_HEAP_BASE + h.mapped) =
      some ((h.stretched pages).appended l (h.newBlock pages)) := by
  have hsizes := heap_sizes
  have haddr : (h.newBlock pages).addr = NPK_HEAP_BASE + h.mapped := rfl
  have hnewSize : (h.newBlock pages).size = pages * NPK_HEAP_PAGE - HEAP_HEADER := rfl
  have hstretched : (h.stretched pages).mapped = h.mapped + pages * NPK_HEAP_PAGE := rfl
  have hroom : HEAP_HEADER ≤ pages * NPK_HEAP_PAGE := by
    rw [hsizes.2.2.1]
    omega
  have hin := newBlock_inside hc hpages
  have hold := hc.stretched hwindow
  have hlin := (hc.inside l (by simp)).upper
  have hlstop := l.stop_eq
  have hholds : (h.stretched pages).holds (h.newBlock pages).addr = true := by
    simp only [Heap.holds, Bool.and_eq_true, decide_eq_true_eq]
    omega
  have hsize : sub64 (sub64 (NPK_HEAP_BASE + (h.stretched pages).mapped)
      (h.newBlock pages).addr) HEAP_HEADER = (h.newBlock pages).size := by
    have hbytes : sub64 (NPK_HEAP_BASE + (h.stretched pages).mapped) (h.newBlock pages).addr =
        pages * NPK_HEAP_PAGE := by
      rw [sub64_eq (by omega) (by omega)]
      omega
    rw [hbytes, sub64_eq hroom (by omega)]
    rfl
  -- The old chain is untouched by the header of the new block.
  have hwritten : Chain ((h.stretched pages).writeHeader (h.newBlock pages) 0 0) (pre ++ [l]) := by
    refine hold.congr rfl (le_refl _) hold.page hold.window fun c hcm a hca => ?_
    have hupper := (hc.inside c hcm).upper
    obtain ⟨hge, hlt⟩ := hca
    simp only [Block.stop] at hupper
    exact writeHeader_outside (by omega)
  have hhead : ((h.stretched pages).writeHeader (h.newBlock pages) 0 0).head ≠ 0 := by
    rw [hwritten.head]
    rcases first_eq_or_mem Block.addr 0 (pre ++ [l]) with ⟨-, hnil⟩ | ⟨c, hcm, hfirst⟩
    · simp at hnil
    · have hpos := hwritten.pos hcm
      omega
  have hlast := hwritten.lastBlock
  have hnewHeader := @writeHeader_header (h.stretched pages) (h.newBlock pages) rfl 0 0
  have hfinal : ((((h.stretched pages).writeHeader (h.newBlock pages) 0 0).setNext l.addr
      (h.newBlock pages).addr).setPrev (h.newBlock pages).addr l.addr).size
        (h.newBlock pages).addr = (h.newBlock pages).size := by
    simp only [Heap.setPrev, Heap.setNext, Heap.setWord, Heap.size]
    rw [Function.update_of_ne (by omega), Function.update_of_ne (by omega)]
    exact hnewHeader.size
  rw [← haddr]
  unfold Heap.appendBlock
  rw [hholds]
  simp only [Bool.not_true, Bool.false_eq_true, if_false]
  rw [show ((h.stretched pages).setMagic (h.newBlock pages).addr HEAP_MAGIC).mapped =
    (h.stretched pages).mapped from rfl, hsize]
  change ((h.stretched pages).writeHeader (h.newBlock pages) 0 0).linkLast _ = _
  unfold Heap.linkLast
  simp only [if_neg hhead, hlast, hfinal]
  rfl

/-! ## Taking a block -/

def Heap.taken (h : Heap) (b : Block) (bytes : ℕ) : Heap :=
  { h.setFree b.addr 0 with free := sub64 h.free bytes }

def Block.used (b : Block) : Block := { b with free := false }

inductive Taken (h : Heap) (size : ℕ) : List Block → ℕ → Heap → List Block → Prop
  | whole (pre : List Block) (b : Block) (post : List Block) (hfree : b.free = true)
      (hsize : size ≤ b.size) :
      Taken h size (pre ++ b :: post) b.body (h.taken b b.size) (pre ++ b.used :: post)
  | front (pre : List Block) (b : Block) (post : List Block) (hfree : b.free = true)
      (hpos : 0 < size) (hsized : size % NPK_HEAP_ALIGNMENT = 0)
      (hfit : size + (HEAP_HEADER + NPK_HEAP_ALIGNMENT) ≤ b.size) :
      Taken h size (pre ++ b :: post) b.body
        ((h.splitted b size post).taken b (b.size - (b.back size).size))
        (pre ++ (b.front size).used :: b.back size :: post)

theorem taken_words {a : ℕ} (ha : a ≠ b.addr + 16) :
    (h.taken b bytes).words a = h.words a := by
  simp [Heap.taken, Heap.setFree, Heap.setWord, ha]

@[simp]
theorem taken_mapped : (h.taken b bytes).mapped = h.mapped := rfl

theorem Chain.taken (hc : Chain h (pre ++ b :: post)) :
    Chain (h.taken b bytes) (pre ++ b.used :: post) :=
  (hc.setFree false).congr rfl (le_refl _) hc.page hc.window fun _ _ _ _ => rfl

theorem Taken.chain (hc : Chain h bs) (htaken : Taken h size bs pointer h' cs) : Chain h' cs := by
  cases htaken with
  | whole pre b post hfree hsize => exact hc.taken
  | front pre b post hfree hpos hsized hfit =>
    exact (hc.split hpos hsized hfit).taken

theorem Taken.keeps (hc : Chain h bs) (htaken : Taken h size bs pointer h' cs) :
    Keeps h bs h' cs := by
  have hsizes := heap_sizes
  cases htaken with
  | whole pre b post hfree hsize =>
    have hstop := b.stop_eq
    refine .of_words hc (mem_of_used [_] hfree) fun a _ _ hfrees => taken_words ?_
    have hb := hfrees b (by simp) hfree
    omega
  | front pre b post hfree hpos hsized hfit =>
    have hstop := b.stop_eq
    refine .of_words hc (mem_of_used [_, _] hfree) fun a _ hheaders hfrees => ?_
    have hb := hfrees b (by simp) hfree
    rw [taken_words (by omega)]
    refine splitted_words (by omega) hb fun c rest hpost => ?_
    have hc' := hheaders c (by simp [hpost])
    omega

theorem Taken.block (hc : Chain h bs) (htaken : Taken h size bs pointer h' cs) :
    ∃ b ∈ cs, b.free = false ∧ b.body = pointer ∧ size ≤ b.size ∧
      ∀ c ∈ bs, c.free = false → c.body ≠ pointer := by
  have hold : ∀ {pre b post}, Chain h (pre ++ b :: post) → b.free = true →
      ∀ c ∈ pre ++ b :: post, c.free = false → c.body ≠ b.body := by
    intro pre b post hc hfree c hcm hused hbody
    have heq := hc.addr_inj hcm (show b ∈ pre ++ b :: post by simp) (Nat.add_right_cancel hbody)
    rw [heq, hfree] at hused
    exact absurd hused (by decide)
  cases htaken with
  | whole pre b post hfree hsize =>
    exact ⟨b.used, by simp, rfl, rfl, hsize, hold hc hfree⟩
  | front pre b post hfree hpos hsized hfit =>
    exact ⟨(b.front size).used, by simp, rfl, rfl, le_refl size, hold hc hfree⟩

theorem takeBlock_eq (hc : Chain h (pre ++ b :: post)) (hsize : size ≤ b.size) :
    h.takeBlock b.addr size =
      some (b.body, if b.size < size + (HEAP_HEADER + NPK_HEAP_ALIGNMENT) then h.taken b b.size
        else (h.splitted b size post).taken b (b.size - (b.back size).size)) := by
  have hsizes := heap_sizes
  unfold Heap.takeBlock
  rw [hc.size_eq, splitBlock_eq hc hsize]
  by_cases hsmall : b.size < size + (HEAP_HEADER + NPK_HEAP_ALIGNMENT)
  · rw [if_pos hsmall, if_pos hsmall]
    rfl
  rw [if_neg hsmall, if_neg hsmall]
  have hbounds := hc.bounds (show b ∈ pre ++ b :: post by simp)
  have hback := b.back_addr size
  have hbackSize : (b.back size).size = b.size - size - HEAP_HEADER := rfl
  have hfront := @splitted_front h pre post b size hc.header hc.behind
  have hbackHeader := @splitted_back h post b size hc.behind (by omega)
  have hnext : ((h.splitted b size post).setFree b.addr 0).next b.addr = (b.back size).addr := by
    simp only [Heap.setFree, Heap.setWord, Heap.next]
    rw [Function.update_of_ne (by omega)]
    exact hfront.next
  have hbytes : ((h.splitted b size post).setFree b.addr 0).size (b.back size).addr =
      (b.back size).size := by
    simp only [Heap.setFree, Heap.setWord, Heap.size]
    rw [Function.update_of_ne (by omega)]
    exact hbackHeader.size
  have hbytes' : sub64 b.size (b.back size).size = b.size - (b.back size).size :=
    sub64_eq (by omega) (by omega)
  simp only [if_true, hnext, hbytes, hbytes']
  rfl

theorem takeBlock_taken (hc : Chain h (pre ++ b :: post)) (hfree : b.free = true)
    (hpos : 0 < size) (hsized : size % NPK_HEAP_ALIGNMENT = 0) (hsize : size ≤ b.size) :
    ∃ h' cs, h.takeBlock b.addr size = some (b.body, h') ∧
      Taken h size (pre ++ b :: post) b.body h' cs := by
  rw [takeBlock_eq hc hsize]
  split
  · exact ⟨_, _, rfl, .whole pre b post hfree hsize⟩
  next hfit => exact ⟨_, _, rfl, .front pre b post hfree hpos hsized (Nat.le_of_not_lt hfit)⟩

/-! ## Allocation -/

def Heap.rounded (size : ℕ) : ℕ := alignUpU64 size NPK_HEAP_ALIGNMENT

def Heap.target (h : Heap) (size : ℕ) : ℕ :=
  alignUpU64 (h.mapped + (HEAP_HEADER + Heap.rounded size)) NPK_HEAP_PAGE

inductive Allocated (h : Heap) (bs : List Block) (grants : ℕ → Bool) (size : ℕ) :
    ℕ → Heap → List Block → Prop
  | refused : Allocated h bs grants size 0 h bs
  | stopped (pages : ℕ) (hpages : pages < h.pagesTo (h.target size))
      (hgranted : ∀ k < pages, grants k = true) (hrefused : grants pages = false)
      (htarget : h.target size ≤ NPK_HEAP_LIMIT - NPK_HEAP_BASE)
      (hwindow : h.mapped + pages * NPK_HEAP_PAGE ≤ NPK_HEAP_LIMIT - NPK_HEAP_BASE)
      (hnone : h.findFree (Heap.rounded size) (h.mapped + 1) h.head = some 0) :
      Allocated h bs grants size 0 (h.stretched pages) bs
  | taken {pointer : ℕ} {h' : Heap} {cs : List Block} (hpos : 0 < Heap.rounded size)
      (htaken : Taken h (Heap.rounded size) bs pointer h' cs) :
      Allocated h bs grants size pointer h' cs
  | grown {pointer : ℕ} {mid h' : Heap} {ms cs : List Block} (hpos : 0 < Heap.rounded size)
      (hgrown : Grown h bs mid ms) (htaken : Taken mid (Heap.rounded size) ms pointer h' cs) :
      Allocated h bs grants size pointer h' cs

theorem rounded_eq (hsize : size ≤ 2 ^ 64 - 16) : Heap.rounded size = (size + 15) / 16 * 16 := by
  rw [Heap.rounded, alignUpU64, heap_sizes.2.1, if_neg (by simp; omega)]
  rfl

theorem rounded_zero (hsize : 2 ^ 64 - 16 < size) : Heap.rounded size = 0 := by
  rw [Heap.rounded, alignUpU64, heap_sizes.2.1, if_pos (by simp; omega)]

theorem le_rounded (hpos : 0 < Heap.rounded size) : size ≤ Heap.rounded size := by
  by_cases hsize : size ≤ 2 ^ 64 - 16
  · rw [rounded_eq hsize]
    omega
  · have hzero := rounded_zero (Nat.lt_of_not_le hsize)
    omega

theorem target_cases (hc : Chain h bs) (hpos : 0 < Heap.rounded size) :
    h.target size = 0 ∨ NPK_HEAP_LIMIT - NPK_HEAP_BASE < h.target size ∨
      (h.target size ≤ NPK_HEAP_LIMIT - NPK_HEAP_BASE ∧
        h.target size % NPK_HEAP_PAGE = 0 ∧ 0 < h.pagesTo (h.target size) ∧
        h.pagesTo (h.target size) ≤ h.target size / NPK_HEAP_PAGE ∧
        h.mapped + h.pagesTo (h.target size) * NPK_HEAP_PAGE ≤ NPK_HEAP_LIMIT - NPK_HEAP_BASE ∧
        Heap.rounded size ≤ (h.newBlock (h.pagesTo (h.target size))).size) := by
  have hsizes := heap_sizes
  have hpage := hsizes.2.2.1
  have hmapped := hc.page
  rw [hpage] at hmapped ⊢
  by_cases hfits : h.mapped + (HEAP_HEADER + Heap.rounded size) ≤ 2 ^ 64 - 1 - 4095
  · have htarget : h.target size =
        (h.mapped + (HEAP_HEADER + Heap.rounded size) + 4095) / 4096 * 4096 := by
      rw [Heap.target, alignUpU64, hpage, if_neg (by simp; omega)]
      rfl
    by_cases hin : h.target size ≤ NPK_HEAP_LIMIT - NPK_HEAP_BASE
    · right
      right
      have hnew : (h.newBlock (h.pagesTo (h.target size))).size =
          h.pagesTo (h.target size) * NPK_HEAP_PAGE - HEAP_HEADER := rfl
      have hpages : h.pagesTo (h.target size) = (h.target size - h.mapped) / NPK_HEAP_PAGE := rfl
      rw [hpage] at hnew hpages
      refine ⟨hin, by omega, by omega, by omega, by omega, by omega⟩
    · exact .inr (.inl (Nat.lt_of_not_le hin))
  · left
    rw [Heap.target, alignUpU64, hpage, if_pos (by simp; omega)]

theorem mapMore_eq (grants : ℕ → Bool) (hc : Chain h bs) (hpos : 0 < Heap.rounded size) :
    (h.mapMore grants (h.mapped + (HEAP_HEADER + Heap.rounded size)) = (false, h)) ∨
      ∃ k ≤ h.pagesTo (h.target size),
        h.mapMore grants (h.mapped + (HEAP_HEADER + Heap.rounded size)) =
          (k == h.pagesTo (h.target size), h.stretched k) ∧
        (∀ j < k, grants j = true) ∧ (k < h.pagesTo (h.target size) → grants k = false) ∧
        h.target size ≤ NPK_HEAP_LIMIT - NPK_HEAP_BASE ∧
        h.mapped + h.pagesTo (h.target size) * NPK_HEAP_PAGE ≤ NPK_HEAP_LIMIT - NPK_HEAP_BASE ∧
        0 < h.pagesTo (h.target size) ∧
        Heap.rounded size ≤ (h.newBlock (h.pagesTo (h.target size))).size := by
  have htarget : alignUpU64 (h.mapped + (HEAP_HEADER + Heap.rounded size)) NPK_HEAP_PAGE =
    h.target size := rfl
  unfold Heap.mapMore
  rw [htarget]
  rcases target_cases hc hpos with hzero | hlarge | ⟨hin, hpage, hpages, hle, hwindow, hroom⟩
  · exact .inl (if_pos (by simp [hzero]))
  · exact .inl (if_pos (by simp [hlarge]))
  · by_cases hreject : (decide (h.target size = 0) ||
        decide (NPK_HEAP_LIMIT - NPK_HEAP_BASE < h.target size)) = true
    · exact .inl (if_pos hreject)
    · right
      obtain ⟨k, hk, hmap, hgranted, hrefused⟩ := mapPages_eq grants hc.page hpage hle
      exact ⟨k, hk, (if_neg hreject).trans hmap, hgranted, hrefused, hin, hwindow, hpages, hroom⟩

theorem growAndTake_allocated (hc : Chain h bs) (hne : bs ≠ []) (grants : ℕ → Bool)
    (hpos : 0 < Heap.rounded size) (hsized : Heap.rounded size % NPK_HEAP_ALIGNMENT = 0)
    (hwanted : add64 HEAP_HEADER (Heap.rounded size) = HEAP_HEADER + Heap.rounded size)
    (hnone : h.findFree (Heap.rounded size) (h.mapped + 1) h.head = some 0) :
    ∃ pointer h' cs, h.growAndTake grants (Heap.rounded size) = some (pointer, h') ∧
      Allocated h bs grants size pointer h' cs := by
  unfold Heap.growAndTake
  rw [hwanted]
  by_cases hover : addOverflowU64 h.mapped (HEAP_HEADER + Heap.rounded size) = true
  · exact ⟨0, h, bs, if_pos hover, .refused⟩
  simp only [if_neg hover]
  rcases mapMore_eq grants hc hpos with
    hmap | ⟨k, hk, hmap, hgranted, hrefused, htarget, hwindow, hpages, hroom⟩
  · rw [hmap]
    exact ⟨0, h, bs, rfl, .refused⟩
  rw [hmap]
  by_cases hall : k = h.pagesTo (h.target size)
  · obtain ⟨pre, l, rfl⟩ := bs.eq_nil_or_concat.resolve_left hne
    rw [List.concat_eq_append] at *
    rw [← hall] at hwindow hroom
    have hgrown : Grown h (pre ++ [l]) _ _ := .intro pre l k (by omega) hwindow
    have hchain : Chain ((h.stretched k).appended l (h.newBlock k))
        ((pre ++ [l]) ++ [h.newBlock k]) := by
      simpa using hgrown.chain hc
    obtain ⟨h', cs, htake, htaken⟩ := takeBlock_taken hchain rfl hpos hsized hroom
    have happend := @appendBlock_eq h pre l k hc (by omega) hwindow
    refine ⟨_, h', cs, ?_, .grown hpos hgrown (by simpa using htaken)⟩
    · simp only [beq_iff_eq.2 hall, happend]
      exact htake
  · have hlt : k < h.pagesTo (h.target size) := lt_of_le_of_ne hk hall
    have hsmaller := Nat.mul_le_mul_right NPK_HEAP_PAGE hk
    refine ⟨0, h.stretched k, bs, ?_, .stopped k hlt hgranted (hrefused hlt) htarget (by omega)
      hnone⟩
    simp only [beq_eq_false_iff_ne.2 hall]

theorem kmalloc_allocated (hc : Chain h bs) (hne : bs ≠ []) (grants : ℕ → Bool)
    (hsize : size ≤ 2 ^ 64 - 64 ∨ 2 ^ 64 - 16 < size) :
    ∃ pointer h' cs, h.kmalloc grants size = some (pointer, h') ∧
      Allocated h bs grants size pointer h' cs := by
  have hsizes := heap_sizes
  have hround : alignUpU64 size NPK_HEAP_ALIGNMENT = Heap.rounded size := rfl
  unfold Heap.kmalloc
  by_cases hstart : (!h.ready || decide (size = 0)) = true
  · exact ⟨0, h, bs, if_pos hstart, .refused⟩
  simp only [if_neg hstart, hround]
  by_cases hzero : Heap.rounded size = 0
  · exact ⟨0, h, bs, if_pos hzero, .refused⟩
  rw [if_neg hzero]
  have hpos := Nat.pos_of_ne_zero hzero
  have hsmall : size ≤ 2 ^ 64 - 64 := hsize.resolve_right fun hlt => hzero (rounded_zero hlt)
  have hrounded := rounded_eq (show size ≤ 2 ^ 64 - 16 by omega)
  have hsized : Heap.rounded size % NPK_HEAP_ALIGNMENT = 0 := by
    rw [hrounded]
    exact Nat.mul_mod_left _ _
  have hfind := @Chain.findFree h bs (Heap.rounded size) hc
  cases hfirst : bs.find? fun b => b.free && Heap.rounded size ≤ b.size with
  | some b =>
    rw [hfirst] at hfind
    have hb := List.mem_of_find?_eq_some hfirst
    have hfits := List.find?_some hfirst
    simp only [Bool.and_eq_true, decide_eq_true_eq] at hfits
    obtain ⟨pre, post, rfl⟩ := List.append_of_mem hb
    obtain ⟨h', cs, htake, htaken⟩ := takeBlock_taken hc hfits.1 hpos hsized hfits.2
    refine ⟨b.body, h', cs, ?_, .taken hpos htaken⟩
    simp only [hfind]
    rw [if_pos (Nat.pos_iff_ne_zero.1 (hc.pos hb)), htake]
  | none =>
    rw [hfirst] at hfind
    simp only [hfind, ne_eq, not_true_eq_false, if_false]
    exact growAndTake_allocated hc hne grants hpos hsized (add64_eq (by omega)) hfind

namespace Allocated

variable {grants : ℕ → Bool} {pointer : ℕ}

theorem chain (hc : Chain h bs) (halloc : Allocated h bs grants size pointer h' cs) :
    Chain h' cs := by
  cases halloc with
  | refused => exact hc
  | stopped pages hpages hgranted hrefused htarget hwindow hnone => exact hc.stretched hwindow
  | taken hpos htaken => exact htaken.chain hc
  | grown hpos hgrown htaken => exact htaken.chain (hgrown.chain hc)

theorem keeps (hc : Chain h bs) (halloc : Allocated h bs grants size pointer h' cs) :
    Keeps h bs h' cs := by
  cases halloc with
  | refused => exact fun b hb _ => ⟨hb, fun _ _ _ => rfl⟩
  | stopped pages hpages hgranted hrefused htarget hwindow hnone => exact .stretched hc pages
  | taken hpos htaken => exact htaken.keeps hc
  | grown hpos hgrown htaken => exact (hgrown.keeps hc).trans (htaken.keeps (hgrown.chain hc))

theorem ne_nil (hne : bs ≠ []) (halloc : Allocated h bs grants size pointer h' cs) : cs ≠ [] := by
  cases halloc with
  | refused | stopped => exact hne
  | taken hpos htaken => cases htaken <;> simp
  | grown hpos hgrown htaken => cases htaken <;> simp

theorem block (hc : Chain h bs) (halloc : Allocated h bs grants size pointer h' cs)
    (hpointer : pointer ≠ 0) :
    ∃ b ∈ cs, b.free = false ∧ b.body = pointer ∧ size ≤ b.size ∧
      ∀ c ∈ bs, c.free = false → c.body ≠ pointer := by
  cases halloc with
  | refused | stopped => exact absurd rfl hpointer
  | taken hpos htaken =>
    obtain ⟨b, hb, hused, hbody, hsize, hnew⟩ := htaken.block hc
    exact ⟨b, hb, hused, hbody, (le_rounded hpos).trans hsize, hnew⟩
  | grown hpos hgrown htaken =>
    obtain ⟨b, hb, hused, hbody, hsize, hnew⟩ := htaken.block (hgrown.chain hc)
    refine ⟨b, hb, hused, hbody, (le_rounded hpos).trans hsize, fun c hcm hcused => ?_⟩
    exact hnew c (hgrown.keeps hc c hcm hcused).1 hcused

end Allocated

/-! ## Freeing -/

def Block.unused (b : Block) : Block := { b with free := true }

def Heap.released (h : Heap) (b : Block) : Heap := (h.setFree b.addr 1).addFree b.size

inductive Merges : Heap → List Block → Heap → List Block → Prop
  | refl (h : Heap) (bs : List Block) : Merges h bs h bs
  | step {h h' : Heap} {cs : List Block} (pre : List Block) (b n : Block) (post : List Block)
      (hfree : b.free = true) (hjoins : b.joins n = true)
      (hrest : Merges (h.merged b n post) (pre ++ b.join n :: post) h' cs) :
      Merges h (pre ++ b :: n :: post) h' cs

theorem Merges.chain (hc : Chain h bs) (hmerges : Merges h bs h' cs) : Chain h' cs := by
  induction hmerges with
  | refl => exact hc
  | step pre b n post hfree hjoins hrest ih => exact ih (hc.merge hjoins)

theorem merged_keeps (hc : Chain h (pre ++ b :: n :: post)) (hfree : b.free = true)
    (hjoins : b.joins n = true) :
    Keeps h (pre ++ b :: n :: post) (h.merged b n post) (pre ++ b.join n :: post) := by
  have hsizes := heap_sizes
  simp only [Block.joins, Bool.and_eq_true] at hjoins
  refine .of_words hc (fun c hcm hused => ?_) fun a _ hheaders _ => ?_
  · have hcm' : c ∈ pre ++ b.join n :: n :: post := mem_of_used [_] hfree c hcm hused
    have hnen : c ≠ n := by
      rintro rfl
      simp [hjoins.1] at hused
    simp only [List.mem_append, List.mem_cons] at hcm' ⊢
    tauto
  · have hb := hheaders b (by simp)
    have hn := hheaders n (by simp)
    rw [merged_words, if_neg (by omega), if_neg (by omega), if_neg (by omega), if_neg (by omega)]
    intro c rest hpost
    have hc' := hheaders c (by simp [hpost])
    omega

theorem Merges.keeps (hc : Chain h bs) (hmerges : Merges h bs h' cs) : Keeps h bs h' cs := by
  induction hmerges with
  | refl => exact fun b hb _ => ⟨hb, fun _ _ _ => rfl⟩
  | step pre b n post hfree hjoins hrest ih =>
    exact (merged_keeps hc hfree hjoins).trans (ih (hc.merge hjoins))

theorem Chain.released (hc : Chain h (pre ++ b :: post)) :
    Chain (h.released b) (pre ++ b.unused :: post) :=
  (hc.setFree true).congr rfl (le_refl _) hc.page hc.window fun _ _ _ _ => rfl

theorem released_keeps (hc : Chain h (pre ++ b :: post)) {c : Block}
    (hcm : c ∈ pre ++ b :: post) (hne : c ≠ b) :
    c ∈ pre ++ b.unused :: post ∧
      ∀ a, c.body ≤ a → a < c.stop → (h.released b).words a = h.words a := by
  have hsizes := heap_sizes
  constructor
  · simp only [List.mem_append, List.mem_cons] at hcm ⊢
    tauto
  · intro a hge hlt
    have hapart := (hc.apart hcm (show b ∈ pre ++ b :: post by simp)).resolve_left hne
    simp only [Block.body, Block.stop] at *
    simp only [Heap.released, Heap.addFree, Heap.setFree, Heap.setWord]
    rw [Function.update_of_ne (by omega)]

theorem mergeWithNext_merges (hc : Chain h (pre ++ b :: post)) (hfree : b.free = true) :
    ∃ h' cs, h.mergeWithNext b.addr = some h' ∧ Merges h (pre ++ b :: post) h' cs := by
  rw [mergeWithNext_eq hc]
  cases post with
  | nil => exact ⟨_, _, rfl, .refl _ _⟩
  | cons n rest =>
    by_cases hjoins : b.joins n = true
    · refine ⟨h.merged b n rest, _, ?_, .step pre b n rest hfree hjoins (.refl _ _)⟩
      simp only [if_pos hjoins]
    · refine ⟨h, _, ?_, .refl _ _⟩
      simp only [if_neg hjoins]

theorem merged_prev (hc : Chain h (pre ++ b :: n :: post)) :
    (h.merged b n post).prev n.addr = h.prev n.addr := by
  have hsizes := heap_sizes
  have hcn : Chain h ((pre ++ [b]) ++ n :: post) := by simpa using hc
  have hapart := hc.behind n (by simp)
  have hstop := b.stop_eq
  simp only [Heap.prev]
  rw [merged_words, if_neg (by omega), if_neg (by omega), if_neg (by omega), if_neg (by omega)]
  intro c rest hpost
  have hbehind := hcn.behind c (by simp [hpost])
  simp only [Block.stop] at hbehind
  omega

theorem mergeBefore_merges (hc : Chain h (pre ++ l :: b :: post)) (hfree : l.free = true) :
    ∃ mid h' cs, h.mergeWithNext l.addr = some mid ∧
      mid.mergeWithNext (mid.prev b.addr) = some h' ∧
      Merges h (pre ++ l :: b :: post) h' cs := by
  have hcb : Chain h ((pre ++ [l]) ++ b :: post) := by simpa using hc
  have hprev : h.prev b.addr = l.addr := by
    rw [hcb.prev_eq]
    simp [last_append]
  have hmerge := mergeWithNext_eq hc
  by_cases hjoins : l.joins b = true
  · simp only [if_pos hjoins] at hmerge
    have hmerged := hc.merge hjoins
    obtain ⟨h', cs, hnext, hmerges⟩ := mergeWithNext_merges hmerged hfree
    refine ⟨h.merged l b post, h', cs, hmerge, ?_, .step pre l b post hfree hjoins hmerges⟩
    rw [merged_prev hc, hprev]
    exact hnext
  · simp only [if_neg hjoins] at hmerge
    refine ⟨h, h, _, hmerge, ?_, .refl _ _⟩
    rw [hprev, hmerge]

theorem kfree_merges (hc : Chain h (pre ++ b :: post)) (hused : b.free = false) :
    ∃ h' cs, h.kfree b.body = some h' ∧ Merges (h.released b) (pre ++ b.unused :: post) h' cs := by
  have hsizes := heap_sizes
  have hbm : b ∈ pre ++ b :: post := by simp
  have hbounds := hc.bounds hbm
  have hbody : b.body = b.addr + HEAP_HEADER := rfl
  have hpointer : h.pointerInHeap b.body = true := by
    simp only [Heap.pointerInHeap, Bool.and_eq_true, decide_eq_true_eq]
    omega
  have hblock : b.body - HEAP_HEADER = b.addr := by omega
  have hsize : (h.setFree b.addr 1).size b.addr = b.size := by
    simp only [Heap.setFree, Heap.setWord, Heap.size]
    rw [Function.update_of_ne (by omega)]
    exact hc.size_eq
  have hrelease : (h.setFree b.addr 1).addFree ((h.setFree b.addr 1).size b.addr) =
      h.released b := by
    rw [hsize]
    rfl
  have hchain := hc.released
  have hprev : (h.released b).prev b.addr = last Block.addr 0 pre := hchain.prev_eq
  unfold Heap.kfree
  simp only [hblock, hpointer, hc.magic_eq, hc.isFree_eq, hused, hc.size_eq, hrelease, hprev]
  rw [if_neg (by omega), if_neg (by simp), if_neg (by simp; omega)]
  rcases pre.eq_nil_or_concat with rfl | ⟨before, l, rfl⟩
  · obtain ⟨h', cs, hmerge, hmerges⟩ := mergeWithNext_merges hchain rfl
    exact ⟨h', cs, (if_pos rfl).trans hmerge, hmerges⟩
  · rw [List.concat_eq_append] at *
    have hlm : l ∈ (before ++ [l]) ++ b.unused :: post := by simp
    have hl : Chain (h.released b) (before ++ l :: b.unused :: post) := by simpa using hchain
    have hlast : last Block.addr 0 (before ++ [l]) = l.addr := by simp [last_append]
    have hlpos := hchain.pos hlm
    rw [hlast, if_neg (by omega), hchain.holds hlm, hl.isFree_eq]
    by_cases hlfree : l.free = true
    · obtain ⟨mid, h', cs, hmid, hmerge, hmerges⟩ := mergeBefore_merges hl hlfree
      refine ⟨h', cs, ?_, by simpa using hmerges⟩
      simp only [hlfree, hmid, Bool.not_true, Bool.false_eq_true, if_false, if_true]
      exact hmerge
    · obtain ⟨h', cs, hmerge, hmerges⟩ := mergeWithNext_merges hchain rfl
      refine ⟨h', cs, ?_, hmerges⟩
      simp only [hlfree, Bool.not_true, Bool.false_eq_true, if_false]
      exact hmerge

theorem Merges.ne_nil (hne : bs ≠ []) (hmerges : Merges h bs h' cs) : cs ≠ [] := by
  induction hmerges with
  | refl => exact hne
  | step pre b n post hfree hjoins hrest ih => exact ih (by simp)

/-! ## The first block -/

def Heap.firstBlock : Block where
  addr := NPK_HEAP_BASE
  size := NPK_HEAP_PAGE - HEAP_HEADER
  free := true

/-- The heap before `kheap_init` maps its first page. -/
def Heap.empty (words : ℕ → ℕ) : Heap where
  words := words
  head := 0
  mapped := 0
  free := 0
  ready := false

theorem kheapInit_eq (words : ℕ → ℕ) :
    Heap.kheapInit true words =
      { ({ (Heap.empty words).grow with head := NPK_HEAP_BASE } : Heap).writeHeader
          Heap.firstBlock 0 0 with
        free := Heap.firstBlock.size
        ready := true } := by
  have hmap : Heap.mapMore (fun _ => true) NPK_HEAP_PAGE ⟨words, 0, 0, 0, false⟩ =
      (true, (Heap.empty words).grow) := rfl
  have hsize := (@writeHeader_header { (Heap.empty words).grow with head := NPK_HEAP_BASE }
    Heap.firstBlock rfl 0 0).size
  unfold Heap.kheapInit
  rw [← hsize]
  dsimp only
  rw [hmap]
  rfl

theorem kheapInit_chain (words : ℕ → ℕ) : Chain (Heap.kheapInit true words) [Heap.firstBlock] := by
  rw [kheapInit_eq]
  refine ⟨rfl, ⟨?_, trivial⟩, List.pairwise_singleton _ _, ?_,
    show (0 + NPK_HEAP_PAGE) % NPK_HEAP_PAGE = 0 by decide,
    show 0 + NPK_HEAP_PAGE ≤ NPK_HEAP_LIMIT - NPK_HEAP_BASE by decide⟩
  · exact (@writeHeader_header { (Heap.empty words).grow with head := NPK_HEAP_BASE }
      Heap.firstBlock rfl 0 0).congr fun _ _ _ => rfl
  · intro b hb
    obtain rfl := List.mem_singleton.1 hb
    have hupper : Heap.firstBlock.stop ≤ NPK_HEAP_BASE + (0 + NPK_HEAP_PAGE) := by decide
    exact ⟨by decide, hupper, by decide, by decide, by decide⟩

end NPKernel
